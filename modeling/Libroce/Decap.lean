import Libroce.Responder

/-!
# The options of an IPv4 header

`roce_net_decap` copies the options of an IPv4 header to `ihlbuf`, 60 bytes on
its stack, before anything of the frame has been checked but its addresses.
Whether they were there shows later: a frame that ends within its options has
no UDP header.

    decapIhl after the headers in front of it     (roceNetDecap_atOptions)
    nothing left, nothing accepted                (decapUdp_nil)

Main statement: `roceNetDecap_options` — the copy is right for a frame exactly
when the frame is not `ShortIhl`.
-/

namespace Libroce

/-! ## Up to the options -/

/-- `ihllen`: the option bytes that are asked for. -/
def ihlLen (h : IpHdr) : UInt8 := ((h.u8_0 &&& 0xf) <<< 2) - 20

/-- `ip_hdr_get_ihl` -/
def ipHdrGetIhl (h : IpHdr) : Nat := (h.u8_0 &&& 0xf).toNat

/-- `roce_net_decap` up to the options: the IPv4 header and what follows it. -/
def atOptions (ctx : RoceCtx) (iovs : List (List UInt8)) : Option (IpHdr × List (List UInt8)) :=
  match portAt ctx 1 with
  | .error _ => none
  | .ok port =>
    let vneth := roceIovAdvance port.vnetHdr.toNat iovs
    if vneth.1.length ≠ port.vnetHdr.toNat then none
    else
      match takeHdr ethernetCodec vneth.2 with
      | none => none
      | some (ethh, iovs) =>
        if roceMacMatched port.mac ethh.dmac = true ∧ ethh.type = ethernetIp then takeHdr ipCodec iovs
        else none

/-- The bytes that reach `ihlbuf`. -/
def ihlCopied (h : IpHdr) (iovs : List (List UInt8)) : List UInt8 :=
  (roceIovAdvance (ihlLen h).toNat iovs).1

/-- `roce_net_decap` from the UDP header to the call of `roce_crc32_pkt`. -/
def decapToCrc (iovs : List (List UInt8)) : Option (UdpHdr × IbBth × List UInt8 × List (List UInt8)) :=
  match takeHdr udpCodec iovs with
  | none => none
  | some (udph, iovs) =>
    if udph.dport ≠ roceV2UdpDport then none
    else if udph.length.toUInt32 ≠ 8 + roceIovLen iovs then none
    else
      match takeHdr ibBthCodec iovs with
      | none => none
      | some (bth, iovs) =>
        let icrc := roceIovReverse 4 iovs
        if icrc.1.length ≠ 4 then none else some (udph, bth, icrc)

theorem decapUdp_eq (ip : NetHdr) (ihlbuf : List UInt8) (iovs : List (List UInt8)) :
    decapUdp ip ihlbuf iovs = (decapToCrc iovs).bind fun r =>
      if roceCrc32Pkt ip ihlbuf r.1 r.2.1 r.2.2.2 ≠ Bytes.Codec.le32.dec r.2.2.1 then none
      else some ⟨maskBth r.2.1, maskIp ip, r.2.2.2⟩ := by
  unfold decapUdp decapToCrc
  cases takeHdr udpCodec iovs with
  | none => rfl
  | some r =>
    obtain ⟨udph, iovs⟩ := r
    simp only
    by_cases hport : udph.dport ≠ roceV2UdpDport
    · rw [if_pos hport, if_pos hport]
      rfl
    · rw [if_neg hport, if_neg hport]
      by_cases hlen : udph.length.toUInt32 ≠ 8 + roceIovLen iovs
      · rw [if_pos hlen, if_pos hlen]
        rfl
      · rw [if_neg hlen, if_neg hlen]
        cases takeHdr ibBthCodec iovs with
        | none => rfl
        | some r =>
          obtain ⟨bth, iovs⟩ := r
          simp only
          by_cases hicrc : (roceIovReverse 4 iovs).1.length ≠ 4
          · rw [if_pos hicrc, if_pos hicrc]
            rfl
          · rw [if_neg hicrc, if_neg hicrc]
            rfl

/-- A header comes off the bytes that the iovecs denote. -/
theorem takeHdr_eq_some {α : Type} {c : Bytes.Codec α} {iovs iovs' : List (List UInt8)} {a : α} :
    takeHdr c iovs = some (a, iovs') ↔ c.width ≤ iovs.flatten.length ∧
      a = c.dec (iovs.flatten.take c.width) ∧ iovs' = (roceIovAdvance c.width iovs).2 := by
  have hlen : (roceIovAdvance c.width iovs).1.length ≠ c.width ↔ ¬c.width ≤ iovs.flatten.length := by
    rw [roceIovAdvance_fst, List.length_take]
    omega
  unfold takeHdr
  rw [if_congr hlen rfl rfl, roceIovAdvance_fst]
  constructor
  · intro h
    split at h
    · cases h
    · next hge =>
      obtain ⟨rfl, rfl⟩ := Prod.mk.inj (Option.some.inj h)
      exact ⟨not_not.mp hge, rfl, rfl⟩
  · rintro ⟨hge, rfl, rfl⟩
    rw [if_neg (not_not.mpr hge)]

theorem takeHdr_nil {α : Type} {c : Bytes.Codec α} (hc : 0 < c.width) {iovs : List (List UInt8)}
    (h : iovs.flatten = []) : takeHdr c iovs = none := by
  cases ht : takeHdr c iovs with
  | none => rfl
  | some r =>
    obtain ⟨hge, -⟩ := takeHdr_eq_some.mp (show takeHdr c iovs = some (r.1, r.2) from ht)
    rw [h, List.length_nil] at hge
    omega

/-- With nothing left there is no UDP header, and no check. -/
theorem decapToCrc_nil {iovs : List (List UInt8)} (h : iovs.flatten = []) : decapToCrc iovs = none := by
  have hwidth : 0 < udpCodec.width := by decide
  unfold decapToCrc
  rw [takeHdr_nil hwidth h]

theorem decapUdp_nil (ip : NetHdr) (ihlbuf : List UInt8) {iovs : List (List UInt8)}
    (h : iovs.flatten = []) : decapUdp ip ihlbuf iovs = none := by
  rw [decapUdp_eq, decapToCrc_nil h]
  rfl

/-! ## The frame as bytes -/

/-- An IPv4 frame for this port, by its bytes: the header `h`, and `rest` behind it. -/
structure Ip4Frame (port : RocePort) (frame : List UInt8) (h : IpHdr) (rest : List UInt8) : Prop where
  long : port.vnetHdr.toNat + 14 + 20 ≤ frame.length
  mac : roceMacMatched port.mac
    (ethernetCodec.dec ((frame.drop port.vnetHdr.toNat).take 14)).dmac = true
  type : (ethernetCodec.dec ((frame.drop port.vnetHdr.toNat).take 14)).type = ethernetIp
  hdr : h = ipCodec.dec ((frame.drop (port.vnetHdr.toNat + 14)).take 20)
  rest_eq : rest = frame.drop (port.vnetHdr.toNat + 14 + 20)

/-- The header claims fewer than 20 bytes, and more follows it than `ihlbuf` holds. -/
def ShortIhl (port : RocePort) (frame : List UInt8) : Prop :=
  ∃ h rest, Ip4Frame port frame h rest ∧ ipHdrGetIhl h < 5 ∧ 60 < rest.length

section atOptions

variable {ctx : RoceCtx} {frame : List (List UInt8)} {port : RocePort} {h : IpHdr}

/-- The bytes behind the vnet header, and behind the Ethernet header. -/
theorem flatten_advance (n k : Nat) (iovs : List (List UInt8)) :
    (roceIovAdvance k (roceIovAdvance n iovs).2).2.flatten = iovs.flatten.drop (n + k) := by
  rw [roceIovAdvance_snd, roceIovAdvance_snd, List.drop_drop]

theorem atOptions_frame (hport : portAt ctx 1 = .ok port) {iovs : List (List UInt8)}
    (ho : atOptions ctx frame = some (h, iovs)) : Ip4Frame port frame.flatten h iovs.flatten := by
  unfold atOptions at ho
  rw [hport] at ho
  simp only at ho
  split at ho
  · cases ho
  · next hv =>
    rw [roceIovAdvance_fst, List.length_take] at hv
    split at ho
    · cases ho
    · next ethh eth heth =>
      obtain ⟨hlen, rfl, rfl⟩ := takeHdr_eq_some.mp heth
      rw [roceIovAdvance_snd, List.length_drop] at hlen
      split at ho
      · next hc =>
        obtain ⟨hlen', rfl, rfl⟩ := takeHdr_eq_some.mp ho
        rw [flatten_advance, List.length_drop] at hlen'
        have h14 : ethernetCodec.width = 14 := rfl
        have h20 : ipCodec.width = 20 := rfl
        rw [roceIovAdvance_snd, h14] at hc
        rw [h14] at hlen hlen'
        rw [h20] at hlen'
        refine ⟨by omega, hc.1, hc.2, ?_, ?_⟩
        · rw [flatten_advance, h14, h20]
        · rw [roceIovAdvance_snd, flatten_advance, List.drop_drop, h14, h20]
      · cases ho

theorem Ip4Frame.atOptions {rest : List UInt8} (hf : Ip4Frame port frame.flatten h rest)
    (hport : portAt ctx 1 = .ok port) :
    ∃ iovs, atOptions ctx frame = some (h, iovs) ∧ iovs.flatten = rest := by
  have hlong := hf.long
  have hv : ¬(roceIovAdvance port.vnetHdr.toNat frame).1.length ≠ port.vnetHdr.toNat := by
    rw [roceIovAdvance_fst, List.length_take]
    omega
  have heth : takeHdr ethernetCodec (roceIovAdvance port.vnetHdr.toNat frame).2 =
      some (ethernetCodec.dec ((frame.flatten.drop port.vnetHdr.toNat).take 14),
        (roceIovAdvance 14 (roceIovAdvance port.vnetHdr.toNat frame).2).2) := by
    refine takeHdr_eq_some.mpr ⟨?_, ?_, rfl⟩
    · rw [roceIovAdvance_snd, List.length_drop]
      show 14 ≤ _
      omega
    · rw [roceIovAdvance_snd]
      rfl
  have hip : takeHdr ipCodec (roceIovAdvance 14 (roceIovAdvance port.vnetHdr.toNat frame).2).2 =
      some (h, (roceIovAdvance 20
        (roceIovAdvance 14 (roceIovAdvance port.vnetHdr.toNat frame).2).2).2) := by
    refine takeHdr_eq_some.mpr ⟨?_, ?_, rfl⟩
    · rw [flatten_advance, List.length_drop]
      show 20 ≤ _
      omega
    · rw [flatten_advance, hf.hdr]
      rfl
  refine ⟨(roceIovAdvance 20
    (roceIovAdvance 14 (roceIovAdvance port.vnetHdr.toNat frame).2).2).2, ?_, ?_⟩
  · unfold Libroce.atOptions
    rw [hport]
    simp only
    rw [if_neg hv, heth]
    simp only
    rw [if_pos ⟨hf.mac, hf.type⟩, hip]
  · rw [roceIovAdvance_snd, flatten_advance, List.drop_drop, hf.rest_eq]

theorem atOptions_port {iovs : List (List UInt8)} (ho : atOptions ctx frame = some (h, iovs)) :
    ∃ port, portAt ctx 1 = .ok port := by
  unfold atOptions at ho
  cases hport : portAt ctx 1 with
  | error e =>
    rw [hport] at ho
    cases ho
  | ok port => exact ⟨port, rfl⟩

/-- The code at the options. -/
theorem roceNetDecap_atOptions {iovs : List (List UInt8)} (ho : atOptions ctx frame = some (h, iovs)) :
    roceNetDecap ctx frame = (decapIhl h iovs).bind fun r => .ok (decapUdp r.1 r.2.1 r.2.2) := by
  unfold atOptions at ho
  cases hport : portAt ctx 1 with
  | error e =>
    rw [hport] at ho
    cases ho
  | ok port =>
    have hne : frame ≠ [] := by
      rintro rfl
      have hlong := (atOptions_frame hport (by unfold atOptions; exact ho)).long
      rw [List.flatten_nil, List.length_nil] at hlong
      omega
    unfold roceNetDecap
    rw [hport] at ho
    rw [if_neg hne, hport]
    simp only at ho ⊢
    split at ho
    · cases ho
    · next hv =>
      rw [if_neg hv]
      cases heth : takeHdr ethernetCodec (roceIovAdvance port.vnetHdr.toNat frame).2 with
      | none =>
        rw [heth] at ho
        cases ho
      | some r =>
        obtain ⟨ethh, eth⟩ := r
        rw [heth] at ho
        simp only at ho ⊢
        split at ho
        · next hc =>
          rw [if_pos hc.1]
          unfold decapIp
          rw [if_pos hc.2, ho]
          simp only
          cases decapIhl h iovs <;> rfl
        · cases ho

end atOptions

/-! ## The copy -/

theorem ihlLen_toNat (h : IpHdr) : (ihlLen h).toNat = (4 * ipHdrGetIhl h + 236) % 256 := by
  have hm : (0xf : UInt8).toNat = 2 ^ 4 - 1 := rfl
  unfold ihlLen ipHdrGetIhl
  rw [UInt8.toNat_sub, UInt8.toNat_shiftLeft, UInt8.toNat_and, hm, Nat.and_two_pow_sub_one_eq_mod,
    Nat.shiftLeft_eq]
  simp only [show (2 : UInt8).toNat % 8 = 2 from rfl, show (20 : UInt8).toNat = 20 from rfl]
  omega

theorem ipHdrGetIhl_lt (h : IpHdr) : ipHdrGetIhl h < 16 := by
  have hm : (0xf : UInt8).toNat = 2 ^ 4 - 1 := rfl
  unfold ipHdrGetIhl
  rw [UInt8.toNat_and, hm, Nat.and_two_pow_sub_one_eq_mod]
  omega

theorem length_ihlCopied (h : IpHdr) (iovs : List (List UInt8)) :
    (ihlCopied h iovs).length = min (ihlLen h).toNat iovs.flatten.length := by
  unfold ihlCopied
  rw [roceIovAdvance_fst, List.length_take]

/-- The copy is made, or it leaves the buffer. -/
theorem decapIhl_eq (h : IpHdr) (iovs : List (List UInt8)) :
    decapIhl h iovs = if (ihlCopied h iovs).length > 60 then .error (.undefined .ihlbuf)
      else .ok (.ip4 h, ihlCopied h iovs, (roceIovAdvance (ihlLen h).toNat iovs).2) := by
  have hdef : decapIhl h iovs = if (ihlLen h).toNat = 0 then .ok (.ip4 h, [], iovs)
      else if (ihlCopied h iovs).length > 60 then .error (.undefined .ihlbuf)
      else .ok (.ip4 h, ihlCopied h iovs, (roceIovAdvance (ihlLen h).toNat iovs).2) := rfl
  rw [hdef]
  by_cases hz : (ihlLen h).toNat = 0
  · have hzero : roceIovAdvance 0 iovs = ([], iovs) := by cases iovs <;> rfl
    unfold ihlCopied
    rw [if_pos hz, hz, hzero]
    rfl
  · rw [if_neg hz]

/-- A frame that ends within its options has nothing left for the other headers. -/
theorem flatten_options_nil {h : IpHdr} {iovs : List (List UInt8)}
    (hl : iovs.flatten.length ≤ (ihlLen h).toNat) :
    (roceIovAdvance (ihlLen h).toNat iovs).2.flatten = [] := by
  rw [roceIovAdvance_snd, List.drop_eq_nil_of_le hl]

/-- The options of a frame are copied and read as its header says: they fit the
buffer, they are all there when `roce_crc32_pkt` reads them, and a frame without
them is refused. -/
structure OptionsSafe (ctx : RoceCtx) (frame : List (List UInt8)) : Prop where
  fits : ∀ h iovs, atOptions ctx frame = some (h, iovs) → (ihlCopied h iovs).length ≤ 60
  copied : ∀ h iovs, atOptions ctx frame = some (h, iovs) → 5 ≤ ipHdrGetIhl h →
    4 * ipHdrGetIhl h ≤ iovs.flatten.length + 20 →
    (ihlCopied h iovs).length + 20 = 4 * ipHdrGetIhl h
  read : ∀ h iovs, atOptions ctx frame = some (h, iovs) →
    (decapToCrc (roceIovAdvance (ihlLen h).toNat iovs).2).isSome →
    (ihlLen h).toNat = (ihlCopied h iovs).length ∧ (ihlLen h).toNat + 20 = 4 * ipHdrGetIhl h
  rejected : ∀ h iovs, atOptions ctx frame = some (h, iovs) →
    ipHdrGetIhl h < 5 ∨ iovs.flatten.length + 20 < 4 * ipHdrGetIhl h →
    roceNetDecap ctx frame = .ok none

theorem OptionsSafe.of_not_shortIhl {ctx : RoceCtx} {frame : List (List UInt8)}
    (hs : ¬∃ port, portAt ctx 1 = .ok port ∧ ShortIhl port frame.flatten) : OptionsSafe ctx frame := by
  have hshort : ∀ h iovs, atOptions ctx frame = some (h, iovs) →
      5 ≤ ipHdrGetIhl h ∨ iovs.flatten.length ≤ 60 := by
    intro h iovs ho
    obtain ⟨port, hport⟩ := atOptions_port ho
    by_contra hc
    exact hs ⟨port, hport, h, iovs.flatten, atOptions_frame hport ho, by omega, by omega⟩
  have hfits : ∀ h iovs, atOptions ctx frame = some (h, iovs) → (ihlCopied h iovs).length ≤ 60 := by
    intro h iovs ho
    have hcase := hshort h iovs ho
    have hlen := ihlLen_toNat h
    have hlt := ipHdrGetIhl_lt h
    rw [length_ihlCopied]
    omega
  refine ⟨hfits, ?_, ?_, ?_⟩
  · intro h iovs _ hge hall
    have hlen := ihlLen_toNat h
    have hlt := ipHdrGetIhl_lt h
    rw [length_ihlCopied]
    omega
  · intro h iovs ho hcrc
    have hcase := hshort h iovs ho
    have hlen := ihlLen_toNat h
    have hlt := ipHdrGetIhl_lt h
    -- the UDP header was there, so the options ended before the frame did
    have hmore : (ihlLen h).toNat < iovs.flatten.length := by
      by_contra hc
      rw [decapToCrc_nil (flatten_options_nil (by omega))] at hcrc
      cases hcrc
    rw [length_ihlCopied]
    omega
  · intro h iovs ho hbad
    have hcase := hshort h iovs ho
    have hlen := ihlLen_toNat h
    have hlt := ipHdrGetIhl_lt h
    have hfit := hfits h iovs ho
    rw [roceNetDecap_atOptions ho, decapIhl_eq, if_neg (by omega)]
    show Except.ok (decapUdp _ _ _) = _
    rw [decapUdp_nil _ _ (flatten_options_nil (by omega))]

/-- **The options of an IPv4 header.**  They are copied and read as the header
says exactly when it does not claim fewer than 20 bytes in front of more than 60:
a header length below 5 wraps in a `uint8_t`. -/
theorem roceNetDecap_options (ctx : RoceCtx) (frame : List (List UInt8)) :
    OptionsSafe ctx frame ↔ ¬∃ port, portAt ctx 1 = .ok port ∧ ShortIhl port frame.flatten := by
  constructor
  · rintro hsafe ⟨port, hport, h, rest, hframe, hihl, hlong⟩
    obtain ⟨iovs, ho, rfl⟩ := hframe.atOptions hport
    have hfit := hsafe.fits h iovs ho
    have hlen := ihlLen_toNat h
    rw [length_ihlCopied] at hfit
    omega
  · exact OptionsSafe.of_not_shortIhl

/-- A header length of 0, and 61 bytes behind the header. -/
theorem roceNetDecap_options_short :
    ¬OptionsSafe smallCtx [List.replicate 12 0 ++ [8, 0, 0x40] ++ List.replicate 80 0] := by
  intro hsafe
  have hcopied := hsafe.fits ⟨0x40, 0, 0, 0, 0, 0, 0, 0, 0, 0⟩ [List.replicate 61 0] (by decide)
  revert hcopied
  decide

end Libroce
