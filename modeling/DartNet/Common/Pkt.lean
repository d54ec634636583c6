import DartNet.Common.Seg

/-! Packets of `common/pkt.h` and their memory layouts. -/
namespace DartNet
open Packed

def maxPktLen : ℕ := 1488

/-- `SNP`, the type of the packets that carry a segment. -/
abbrev PktType.snp : UInt16 := 2

/-- `snp_hdr_t` -/
structure SnpHdr where
  srcNodeID : Int32
  destNodeID : Int32
  length : UInt16
  type : UInt16
  deriving DecidableEq, Repr

/-- `snp_pkt_t` -/
structure SnpPkt where
  header : SnpHdr
  data : List.Vector UInt8 maxPktLen
  deriving DecidableEq

/-- `sendpkt_arg_t` -/
structure SendpktArg where
  nextNodeID : Int32
  pkt : SnpPkt
  deriving DecidableEq

def snpHdrLayout : Layout SnpHdr :=
  .ofEquiv ⟨fun h => (h.srcNodeID, h.destNodeID, h.length, h.type),
      fun p => ⟨p.1, p.2.1, p.2.2.1, p.2.2.2⟩, fun _ => rfl, fun _ => rfl⟩
    (.pair i32 (.pair i32 (.pair .u16 .u16)))

def snpPktLayout : Layout SnpPkt :=
  .ofEquiv ⟨fun p => (p.header, p.data), fun q => ⟨q.1, q.2⟩, fun _ => rfl, fun _ => rfl⟩
    (.pair snpHdrLayout (.bytes maxPktLen))

def sendpktArgLayout : Layout SendpktArg :=
  .ofEquiv ⟨fun a => (a.nextNodeID, a.pkt), fun p => ⟨p.1, p.2⟩, fun _ => rfl, fun _ => rfl⟩
    (.pair i32 snpPktLayout)

example : sendpktArgLayout.size = 1504 := rfl

end DartNet
