import Libroce.DatagramReport

/-!
# The GRH

The first 40 bytes of a datagram in its receive WR are the GRH, made of the IP
header that `roce_net_decap` copied.  `roce_crc32_pkt` has masked that copy.

    wireHdr, wireGrh, wirePayload    a frame by its bytes
    copiedSince s t                  the bytes copied to the receive WR
    MaskedAlready h                  the fields that are masked were all ones

Main statement: `roceNetRecv_grh`.
-/

namespace Libroce

open Machine (bind_eq_ok)

/-! ## A frame by its bytes -/

/-- The bytes of an IP header, with its options. -/
def NetHdr.length : NetHdr → Nat
  | .ip4 h => 4 * ipHdrGetIhl h
  | .ip6 _ => 40

/-- The bytes of the DETH, and of the immediate. -/
def dethLen (opcode : UInt8) : Nat := if opcode = ibOpcodeSendOnlyWithImmediate then 8 + 4 else 8

/-- The fields that `roce_crc32_pkt` masks. -/
def MaskedAlready : NetHdr → Prop
  | .ip4 h => h.tos = 0xff ∧ h.ttl = 0xff ∧ h.checksum = 0xffff
  | .ip6 h => h.u32_0 = ipv6VersionTcFl 6 0xff 0xffffff ∧ h.hopLimit = 0xff

instance MaskedAlready.decidable : DecidablePred MaskedAlready
  | .ip4 h => inferInstanceAs (Decidable (h.tos = 0xff ∧ h.ttl = 0xff ∧ h.checksum = 0xffff))
  | .ip6 h => inferInstanceAs (Decidable (h.u32_0 = ipv6VersionTcFl 6 0xff 0xffffff ∧ h.hopLimit = 0xff))

theorem length_roceBuildGrh (ip : NetHdr) : (roceBuildGrh ip).length = 40 := by
  have h20 : ipCodec.width = 20 := rfl
  have h40 : ipv6Codec.width = 40 := rfl
  cases ip with
  | ip4 h => simp [roceBuildGrh, h20]
  | ip6 h => simp [roceBuildGrh, h40]

theorem roceGetEth_flatten {α : Type} {c : Bytes.Codec α} {iovs rest : List (List UInt8)} {a : α}
    (h : roceGetEth c iovs = some (a, rest)) : rest.flatten = iovs.flatten.drop c.width := by
  unfold roceGetEth at h
  split at h
  · cases h
  · obtain ⟨-, rfl⟩ := Prod.mk.inj (Option.some.inj h)
    exact roceIovAdvance_snd _ _

/-- A datagram is the GRH and what is behind the extension headers. -/
theorem udPayload_flatten {pkt : Inbound} {ip : NetHdr} {d : Datagram} (h : udPayload pkt ip = some d) :
    d.iovs.flatten = roceBuildGrh ip ++ pkt.iovs.flatten.drop (dethLen (ibBthGetOpcode pkt.bth)) := by
  have h8 : ibDethCodec.width = 8 := rfl
  have h4 : ibImmdtCodec.width = 4 := rfl
  unfold udPayload at h
  unfold dethLen
  cases heth : roceGetEth ibDethCodec pkt.iovs with
  | none =>
    rw [heth] at h
    cases h
  | some r =>
    obtain ⟨deth, iovs⟩ := r
    simp only [heth] at h
    have hdeth := roceGetEth_flatten heth
    rw [h8] at hdeth
    by_cases himm : ibBthGetOpcode pkt.bth = ibOpcodeSendOnlyWithImmediate
    · rw [if_pos himm] at h ⊢
      cases hi : roceGetEth ibImmdtCodec iovs with
      | none =>
        rw [hi] at h
        cases h
      | some r =>
        obtain ⟨immdt, iovs1⟩ := r
        simp only [hi] at h
        obtain rfl := Option.some.inj h
        have himmdt := roceGetEth_flatten hi
        rw [h4, hdeth, List.drop_drop] at himmdt
        rw [List.flatten_cons, himmdt]
    · rw [if_neg himm] at h ⊢
      by_cases honly : ibBthGetOpcode pkt.bth = ibOpcodeSendOnly
      · rw [if_pos honly] at h
        obtain rfl := Option.some.inj h
        rw [List.flatten_cons, hdeth]
      · rw [if_neg honly] at h
        cases h

def Event.copied : Event → List UInt8
  | .copy _ bytes => bytes
  | _ => []

/-- The bytes copied to receive WRs between two states, in order. -/
def copiedSince (s t : St) : List UInt8 := (t.ctx.trace.drop s.ctx.trace.length).flatMap Event.copied

theorem bytesCopied_copyEvents (dsts : List Iovec) (bytes : List UInt8) :
    (copyEvents dsts bytes).flatMap Event.copied = bytes.take (iovAddrs dsts).length := by
  induction dsts generalizing bytes with
  | nil => rfl
  | cons dst dsts ih =>
    show bytes.take dst.len ++ (copyEvents dsts (bytes.drop dst.len)).flatMap Event.copied = _
    rw [ih, iovAddrs_cons, List.length_append, List.length_range', List.take_add]

theorem bytesCopied_unmap (dmamap : Bool) (iovs : List Iovec) :
    (roceMrUnmapSge dmamap iovs).flatMap Event.copied = [] := by
  apply List.flatMap_eq_nil_iff.mpr
  intro e he
  unfold roceMrUnmapSge at he
  split at he
  · obtain ⟨iov, -, rfl⟩ := List.mem_map.mp he
    rfl
  · cases he

/-- A receive WR takes as much of its datagram as its iovecs have bytes. -/
theorem Took.copied {s t : St} {d : Datagram} {p : UInt64} {rest : List UInt64} {wr : RecvWr}
    {dsts : List Iovec} {dmamap : Bool} (h : Took s d p rest wr dsts dmamap t) :
    copiedSince s t = d.iovs.flatten.take (iovAddrs dsts).length := by
  unfold copiedSince
  rw [h.trace, List.drop_left, List.flatMap_cons, List.flatMap_append, List.flatMap_append,
    bytesCopied_copyEvents, bytesCopied_unmap, List.append_nil]
  exact List.append_nil _

end Libroce
