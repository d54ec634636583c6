import DartNet.Foundation.Layout

/-! Transport constants of `common/constants.h`, the segments of `common/seg.h` with their
memory layouts, and the checksum of `common/seg.c`. -/
namespace DartNet
open Packed

def maxSegLen : ℕ := 200
def synMaxRetry : ℕ := 5
def finMaxRetry : ℕ := 5
def receiveBufSize : ℕ := 1000000
def gbnWindow : ℕ := 10
def nsToMicroseconds : ℕ := 1000
def nanosecondsPerSecond : ℕ := 1000000000
def synTimeout : ℕ := 500000000
def finTimeout : ℕ := 500000000
def dataTimeout : ℕ := 500000

namespace SegType

abbrev syn : UInt16 := 0
abbrev synack : UInt16 := 1
abbrev fin : UInt16 := 2
abbrev finack : UInt16 := 3
abbrev data : UInt16 := 4
abbrev dataack : UInt16 := 5

end SegType

/-- `srt_hdr_t` -/
structure SrtHdr where
  srcPort : UInt32
  destPort : UInt32
  seqNum : UInt32
  ackNum : UInt32
  length : UInt16
  type : UInt16
  rcvWin : UInt16
  checksum : UInt16
  deriving DecidableEq, Repr

/-- `seg_t` -/
structure Seg where
  header : SrtHdr
  data : List.Vector UInt8 maxSegLen
  deriving DecidableEq

/-- `sendseg_arg_t` -/
structure SendsegArg where
  nodeID : Int32
  seg : Seg
  deriving DecidableEq

/-- `int` -/
def i32 : Layout Int32 :=
  .ofEquiv ⟨Int32.toUInt32, Int32.ofUInt32, fun _ => rfl, fun _ => rfl⟩ .u32

def SrtHdr.equiv :
    SrtHdr ≃ UInt32 × UInt32 × UInt32 × UInt32 × UInt16 × UInt16 × UInt16 × UInt16 where
  toFun h := (h.srcPort, h.destPort, h.seqNum, h.ackNum, h.length, h.type, h.rcvWin, h.checksum)
  invFun | (sp, dp, sn, an, l, t, w, c) => ⟨sp, dp, sn, an, l, t, w, c⟩
  left_inv _ := rfl
  right_inv _ := rfl

def srtHdrLayout : Layout SrtHdr :=
  .ofEquiv SrtHdr.equiv (.pair .u32 (.pair .u32 (.pair .u32 (.pair .u32
    (.pair .u16 (.pair .u16 (.pair .u16 .u16)))))))

def segLayout : Layout Seg :=
  .ofEquiv ⟨fun s => (s.header, s.data), fun p => ⟨p.1, p.2⟩, fun _ => rfl, fun _ => rfl⟩
    (.pair srtHdrLayout (.bytes maxSegLen))

def sendsegArgLayout : Layout SendsegArg :=
  .ofEquiv ⟨fun a => (a.nodeID, a.seg), fun p => ⟨p.1, p.2⟩, fun _ => rfl, fun _ => rfl⟩
    (.pair i32 segLayout)

example : sendsegArgLayout.size = 228 := rfl

/-- The sum of the 16-bit words of an even number of bytes. -/
def wordSum : List UInt8 → ℕ
  | lo :: hi :: rest => lo.toNat + 256 * hi.toNat + wordSum rest
  | _ => 0

/-- The two folding lines of `checksum` and `checkchecksum`. -/
def foldSum (sum : ℕ) : ℕ :=
  let sum := sum % 2 ^ 16 + sum / 2 ^ 16
  sum + sum / 2 ^ 16

/-- The bytes both checksum functions sum: the whole segment for `DATA`, else the header. -/
def checksumCount (segment : Seg) : ℕ :=
  if segment.header.type = SegType.data then segLayout.size else srtHdrLayout.size

/-- The field that `checksum` clears before summing. -/
def Seg.clearChecksum (segment : Seg) : Seg :=
  { segment with header := { segment.header with checksum := 0 } }

def checksum (segment : Seg) : UInt16 :=
  let cleared := segment.clearChecksum
  ~~~ UInt16.ofNat (foldSum (wordSum
    ((segLayout.encode cleared).take (checksumCount cleared))))

/-- `segPtr->header.checksum = checksum(segPtr)`, the side effect of `snp_sendseg`. -/
def Seg.stamp (segPtr : Seg) : Seg :=
  { segPtr with header := { segPtr.header with checksum := checksum segPtr } }

/-- A segment without data, built in cleared memory and sent. -/
def controlSeg (srcPort destPort : UInt32) (type : UInt16) (seqNum : UInt32) : Seg :=
  Seg.stamp ⟨⟨srcPort, destPort, seqNum, 0, 0, type, 0, 0⟩, List.Vector.replicate _ 0⟩

/-- The bytes of `data` that belong to the segment. -/
def Seg.payload (s : Seg) : List UInt8 := s.data.val.take s.header.length.toNat

theorem Seg.length_payload {s : Seg} (h : s.header.length.toNat ≤ maxSegLen) :
    s.payload.length = s.header.length.toNat := by
  rw [Seg.payload, List.length_take, show s.data.val.length = maxSegLen from s.data.property]
  exact Nat.min_eq_left h

@[simp] theorem controlSeg_type (srcPort destPort : UInt32) (type : UInt16) (seqNum : UInt32) :
    (controlSeg srcPort destPort type seqNum).header.type = type := rfl

@[simp] theorem controlSeg_srcPort (srcPort destPort : UInt32) (type : UInt16)
    (seqNum : UInt32) : (controlSeg srcPort destPort type seqNum).header.srcPort = srcPort := rfl

@[simp] theorem controlSeg_seqNum (srcPort destPort : UInt32) (type : UInt16) (seqNum : UInt32) :
    (controlSeg srcPort destPort type seqNum).header.seqNum = seqNum := rfl

@[simp] theorem Seg.payload_clearChecksum (s : Seg) : s.clearChecksum.payload = s.payload := rfl

end DartNet
