import Libroce.Decap
import Libroce.Icrc
import Libroce.RoundTrip

/-!
# The frames that are accepted

`roce_net_decap` accepts a frame exactly when its bytes are those of a
`WireFrame` that is `Valid` for the port: vnet header, Ethernet header, IP
header with options, UDP header, BTH, body and ICRC, in this order, with nothing
left over and nothing missing.

`roceNetDecap` checks every byte of an iovec.  `__roce_crc32` takes its length as
a `uint32_t` (`roceNetDecapIovecs`): for iovecs of less than 4 GiB this is the same
(`roceNetDecapIovecs_eq`).

Main statement: `roceNetDecap_iff`.
-/

namespace Libroce

open Machine (bind_eq_ok)

/-! ## Frames -/

/-- A frame, header by header. -/
structure WireFrame where
  vneth : List UInt8
  ethh : EthernetHdr
  ip : NetHdr
  options : List UInt8
  udph : UdpHdr
  bth : IbBth
  body : List UInt8
  icrc : UInt32

/-- The bytes behind the options. -/
def WireFrame.udp (f : WireFrame) : List UInt8 :=
  udpCodec.enc f.udph ++ (ibBthCodec.enc f.bth ++ (f.body ++ Bytes.Codec.le32.enc f.icrc))

def WireFrame.bytes (f : WireFrame) : List UInt8 :=
  f.vneth ++ (ethernetCodec.enc f.ethh ++ (f.ip.bytes ++ (f.options ++ f.udp)))

/-- The Ethernet type of an IP header. -/
def NetHdr.etherType : NetHdr → UInt16
  | .ip4 _ => ethernetIp
  | .ip6 _ => ethernetIpv6

/-- The option bytes that `roce_net_decap` takes behind an IP header. -/
def NetHdr.optionsLen : NetHdr → Nat
  | .ip4 h => (ihlLen h).toNat
  | .ip6 _ => 0

/-- What the port checks of a frame. -/
structure WireFrame.Valid (f : WireFrame) (port : RocePort) : Prop where
  vneth : f.vneth.length = port.vnetHdr.toNat
  mac : roceMacMatched port.mac f.ethh.dmac = true
  type : f.ethh.type = f.ip.etherType
  options : f.options.length = f.ip.optionsLen
  fits : f.options.length ≤ 60
  dport : f.udph.dport = roceV2UdpDport
  length : f.udph.length.toUInt32 = 8 + UInt32.ofNat (12 + f.body.length + 4)
  icrc : roceCrc32Pkt f.ip f.options f.udph f.bth [f.body] = f.icrc

/-! ## Headers -/

theorem ethernetCodec_onto : ethernetCodec.Onto :=
  ((Bytes.Codec.onto_raw 6).seq ((Bytes.Codec.onto_raw 6).seq Bytes.Codec.onto_be16)).iso fun _ => rfl

theorem udpCodec_onto : udpCodec.Onto :=
  (Bytes.Codec.onto_be16.seq (Bytes.Codec.onto_be16.seq
    (Bytes.Codec.onto_be16.seq Bytes.Codec.onto_le16))).iso fun _ => rfl

theorem ibBthCodec_onto : ibBthCodec.Onto :=
  (Bytes.Codec.onto_u8.seq (Bytes.Codec.onto_u8.seq (Bytes.Codec.onto_be16.seq
    (Bytes.Codec.onto_be32.seq Bytes.Codec.onto_be32)))).iso fun _ => rfl

/-- A header that came off was there, byte for byte. -/
theorem takeHdr_bytes {α : Type} {c : Bytes.Codec α} (hc : c.Onto) {iovs iovs' : List (List UInt8)} {a : α}
    (h : takeHdr c iovs = some (a, iovs')) : iovs.flatten = c.enc a ++ iovs'.flatten := by
  obtain ⟨hlen, rfl, rfl⟩ := takeHdr_eq_some.mp h
  rw [hc _ (List.length_take_of_le hlen), roceIovAdvance_snd, List.take_append_drop]

/-! ## Behind the options -/

theorem decapUdp_bytes {ip : NetHdr} {options : List UInt8} {iovs : List (List UInt8)} {pkt : Decap}
    (h : decapUdp ip options iovs = some pkt) : ∃ udph bth icrc,
      iovs.flatten = udpCodec.enc udph ++ (ibBthCodec.enc bth ++
        (pkt.iovs.flatten ++ Bytes.Codec.le32.enc icrc)) ∧
      udph.dport = roceV2UdpDport ∧
      udph.length.toUInt32 = 8 + UInt32.ofNat (12 + pkt.iovs.flatten.length + 4) ∧
      roceCrc32Pkt ip options udph bth [pkt.iovs.flatten] = icrc ∧
      pkt.bth = maskBth bth ∧ pkt.ip = maskIp ip := by
  unfold decapUdp at h
  split at h
  · cases h
  next udph iovs1 hudp =>
  split at h
  · cases h
  next hdport =>
  split at h
  · cases h
  next hlength =>
  split at h
  · cases h
  next bth iovs2 hbth =>
  dsimp only at h
  split at h
  · cases h
  next hfour =>
  split at h
  · cases h
  next hicrc =>
  obtain rfl := Option.some.inj h
  dsimp only
  have hw1 := takeHdr_bytes udpCodec_onto hudp
  have hw2 := takeHdr_bytes ibBthCodec_onto hbth
  have hsnd : (roceIovReverse 4 iovs2).2.flatten = iovs2.flatten.take (iovs2.flatten.length - 4) :=
    roceIovReverse_snd 4 iovs2
  have hfst : (roceIovReverse 4 iovs2).1 = iovs2.flatten.drop (iovs2.flatten.length - 4) :=
    roceIovReverse_fst 4 iovs2
  have hle : Bytes.Codec.le32.enc (Bytes.Codec.le32.dec (roceIovReverse 4 iovs2).1) =
      (roceIovReverse 4 iovs2).1 := Bytes.Codec.onto_le32 _ (not_not.mp hfour)
  have hbody : iovs2.flatten = (roceIovReverse 4 iovs2).2.flatten ++ (roceIovReverse 4 iovs2).1 := by
    rw [hsnd, hfst, List.take_append_drop]
  refine ⟨udph, bth, Bytes.Codec.le32.dec (roceIovReverse 4 iovs2).1, ?_, not_not.mp hdport, ?_, ?_,
    rfl, rfl⟩
  · rw [hw1, hw2, hle, ← hbody]
  · have hlen : iovs1.flatten.length = 12 + (roceIovReverse 4 iovs2).2.flatten.length + 4 := by
      rw [hw2, List.length_append, ibBthCodec.length_enc, hbody, List.length_append, not_not.mp hfour]
      show 12 + _ = _
      omega
    rw [not_not.mp hlength, ← hlen]
    unfold roceIovLen
    rw [List.length_flatten]
  · rw [← not_not.mp hicrc]
    exact roceCrc32Pkt_congr _ _ _ _ (List.append_nil _)

theorem decapUdp_frame {f : WireFrame} {port : RocePort} (hf : f.Valid port) {iovs : List (List UInt8)}
    (hw : iovs.flatten = f.udp) :
    ∃ rest, decapUdp f.ip f.options iovs = some ⟨maskBth f.bth, maskIp f.ip, rest⟩ ∧
      rest.flatten = f.body := by
  obtain ⟨iovs1, hudp, hw1⟩ := takeHdr_enc udpCodec f.udph hw
  obtain ⟨iovs2, hbth, hw2⟩ := takeHdr_enc ibBthCodec f.bth hw1
  have hicrc : (Bytes.Codec.le32.enc f.icrc).length = 4 := Bytes.Codec.le32.length_enc _
  have hsplit : iovs2.flatten.length - 4 = f.body.length := by
    rw [hw2, List.length_append, hicrc, Nat.add_sub_cancel]
  have hfst : (roceIovReverse 4 iovs2).1 = Bytes.Codec.le32.enc f.icrc := by
    rw [roceIovReverse_fst, hsplit, hw2, List.drop_left]
  have hsnd : (roceIovReverse 4 iovs2).2.flatten = f.body := by
    rw [roceIovReverse_snd, hsplit, hw2, List.take_left]
  have hcrc : roceCrc32Pkt f.ip f.options f.udph f.bth (roceIovReverse 4 iovs2).2 = f.icrc := by
    rw [← hf.icrc]
    exact roceCrc32Pkt_congr _ _ _ _ (hsnd.trans (List.append_nil _).symm)
  have hlength : f.udph.length.toUInt32 = 8 + roceIovLen iovs1 := by
    have hbytes : (iovs1.map List.length).sum = 12 + f.body.length + 4 := by
      rw [← List.length_flatten, hw1, List.length_append, List.length_append, hicrc,
        ibBthCodec.length_enc]
      show 12 + _ = _
      omega
    rw [hf.length]
    unfold roceIovLen
    rw [hbytes]
  refine ⟨(roceIovReverse 4 iovs2).2, ?_, hsnd⟩
  unfold decapUdp
  rw [hudp]
  simp only
  rw [if_neg (not_not.mpr hf.dport), if_neg (not_not.mpr hlength), hbth]
  simp only
  rw [hfst, hcrc, if_neg (not_not.mpr hicrc), Bytes.Codec.dec_enc_self, if_neg (not_not.mpr rfl)]

/-! ## Whole frames -/

/-- The IP header and its options, when something is left behind them. -/
theorem decapIp_bytes {type : UInt16} {iovs rest : List (List UInt8)} {ip : NetHdr} {options : List UInt8}
    (h : decapIp type iovs = .ok (some (ip, options, rest))) (hrest : rest.flatten ≠ []) :
    type = ip.etherType ∧ iovs.flatten = ip.bytes ++ (options ++ rest.flatten) ∧
      options.length = ip.optionsLen ∧ options.length ≤ 60 := by
  unfold decapIp at h
  split at h
  · next htype =>
    split at h
    · cases h
    next hdr iovs1 hip =>
    obtain ⟨r, hihl, h⟩ := bind_eq_ok.mp h
    obtain rfl := Option.some.inj (Except.ok.inj h)
    rw [decapIhl_eq] at hihl
    split at hihl
    · cases hihl
    next hfits =>
    obtain ⟨rfl, rfl, rfl⟩ : NetHdr.ip4 hdr = ip ∧ ihlCopied hdr iovs1 = options ∧
        (roceIovAdvance (ihlLen hdr).toNat iovs1).2 = rest := by
      simpa using hihl
    rw [roceIovAdvance_snd] at hrest
    have hmore : (ihlLen hdr).toNat < iovs1.flatten.length := by
      by_contra hc
      exact hrest (List.drop_eq_nil_of_le (Nat.le_of_not_lt hc))
    refine ⟨htype, ?_, ?_, by omega⟩
    · rw [takeHdr_bytes ipCodec_onto hip]
      unfold ihlCopied
      rw [roceIovAdvance_fst, roceIovAdvance_snd, List.take_append_drop]
      rfl
    · rw [length_ihlCopied]
      show min (ihlLen hdr).toNat iovs1.flatten.length = (ihlLen hdr).toNat
      omega
  · split at h
    · next htype =>
      split at h
      · cases h
      next hdr iovs1 hip =>
      obtain ⟨rfl, rfl, rfl⟩ : NetHdr.ip6 hdr = ip ∧ [] = options ∧ iovs1 = rest := by
        simpa using h
      exact ⟨htype, takeHdr_bytes ipv6Codec_onto hip, rfl, Nat.zero_le _⟩
    · cases h

theorem decapIp_frame {f : WireFrame} {port : RocePort} (hf : f.Valid port) {iovs : List (List UInt8)}
    (hw : iovs.flatten = f.ip.bytes ++ (f.options ++ f.udp)) :
    ∃ rest, decapIp f.ethh.type iovs = .ok (some (f.ip, f.options, rest)) ∧ rest.flatten = f.udp := by
  have htype := hf.type
  have hoptions := hf.options
  have hfits := hf.fits
  cases hip : f.ip with
  | ip4 h =>
    rw [hip] at hw htype hoptions
    obtain ⟨iovs1, htake, hw1⟩ := takeHdr_enc ipCodec h hw
    have hcopied : ihlCopied h iovs1 = f.options := by
      unfold ihlCopied
      rw [roceIovAdvance_fst, hw1]
      exact List.take_left' hoptions
    refine ⟨(roceIovAdvance (ihlLen h).toNat iovs1).2, ?_, ?_⟩
    · unfold decapIp
      rw [htype]
      simp only [NetHdr.etherType, if_true]
      rw [htake]
      simp only
      rw [decapIhl_eq, hcopied, if_neg (by omega)]
      rfl
    · rw [roceIovAdvance_snd, hw1]
      exact List.drop_left' hoptions
  | ip6 h =>
    rw [hip] at hw htype hoptions
    have hnil : f.options = [] := List.length_eq_zero_iff.mp hoptions
    obtain ⟨iovs1, htake, hw1⟩ := takeHdr_enc ipv6Codec h hw
    refine ⟨iovs1, ?_, ?_⟩
    · have hne : ¬ethernetIpv6 = ethernetIp := by decide
      unfold decapIp
      rw [htype]
      simp only [NetHdr.etherType, if_true]
      rw [if_neg hne, htake, hnil]
    · rw [hw1, hnil]
      rfl

theorem roceNetDecap_bytes {ctx : RoceCtx} {iovs : List (List UInt8)} {pkt : Decap}
    (h : roceNetDecap ctx iovs = .ok (some pkt)) : ∃ port f, portAt ctx 1 = .ok port ∧
      WireFrame.Valid f port ∧ iovs.flatten = f.bytes ∧ pkt.bth = maskBth f.bth ∧
      pkt.ip = maskIp f.ip ∧ pkt.iovs.flatten = f.body := by
  unfold roceNetDecap at h
  split at h
  · cases h
  split at h
  · cases h
  next port hport =>
  dsimp only at h
  split at h
  · cases h
  next hvneth =>
  split at h
  · cases h
  next ethh iovs1 heth =>
  split at h
  swap
  · cases h
  next hmac =>
  obtain ⟨r, hip, h⟩ := bind_eq_ok.mp h
  cases r with
  | none => cases h
  | some r =>
    obtain ⟨ip, options, iovs2⟩ := r
    have hudp : decapUdp ip options iovs2 = some pkt := Except.ok.inj h
    have hrest : iovs2.flatten ≠ [] := by
      intro hnil
      rw [decapUdp_nil ip options hnil] at hudp
      cases hudp
    obtain ⟨htype, hw2, hoptions, hfits⟩ := decapIp_bytes hip hrest
    obtain ⟨udph, bth, icrc, hw3, hdport, hlength, hicrc, hbth, hmask⟩ := decapUdp_bytes hudp
    refine ⟨port, ⟨(roceIovAdvance port.vnetHdr.toNat iovs).1, ethh, ip, options, udph, bth,
      pkt.iovs.flatten, icrc⟩, hport, ⟨not_not.mp hvneth, hmac, htype, hoptions, hfits, hdport, hlength,
        hicrc⟩, ?_, hbth, hmask, rfl⟩
    unfold WireFrame.bytes WireFrame.udp
    simp only
    rw [← hw3, ← hw2, ← takeHdr_bytes ethernetCodec_onto heth, roceIovAdvance_fst, roceIovAdvance_snd,
      List.take_append_drop]

theorem WireFrame.Valid.accepted {ctx : RoceCtx} {port : RocePort} {f : WireFrame} (hf : f.Valid port)
    (hport : portAt ctx 1 = .ok port) {iovs : List (List UInt8)} (hw : iovs.flatten = f.bytes) :
    ∃ rest, roceNetDecap ctx iovs = .ok (some ⟨maskBth f.bth, maskIp f.ip, rest⟩) ∧
      rest.flatten = f.body := by
  have hne : iovs ≠ [] := by
    rintro rfl
    have hlen := congrArg List.length hw
    unfold WireFrame.bytes at hlen
    rw [List.flatten_nil, List.length_nil, List.length_append, List.length_append,
      ethernetCodec.length_enc] at hlen
    have h14 : ethernetCodec.width = 14 := rfl
    omega
  have hv := hf.vneth
  have hfst : (roceIovAdvance port.vnetHdr.toNat iovs).1 = f.vneth := by
    rw [roceIovAdvance_fst, hw]
    exact List.take_left' hv
  have hsnd : (roceIovAdvance port.vnetHdr.toNat iovs).2.flatten =
      ethernetCodec.enc f.ethh ++ (f.ip.bytes ++ (f.options ++ f.udp)) := by
    rw [roceIovAdvance_snd, hw]
    exact List.drop_left' hv
  obtain ⟨iovs1, heth, hw1⟩ := takeHdr_enc ethernetCodec f.ethh hsnd
  obtain ⟨iovs2, hip, hw2⟩ := decapIp_frame hf hw1
  obtain ⟨rest, hudp, hrest⟩ := decapUdp_frame hf hw2
  refine ⟨rest, ?_, hrest⟩
  unfold roceNetDecap
  rw [if_neg hne, hport]
  simp only
  rw [hfst, if_neg (not_not.mpr hv), heth]
  simp only
  rw [if_pos hf.mac, hip]
  show Except.ok (decapUdp f.ip f.options iovs2) = _
  rw [hudp]

/-! ## Lengths of 32 bits -/

/-- Iovecs of less than 4 GiB. -/
def ShortIovecs (iovs : List (List UInt8)) : Prop := ∀ iov ∈ iovs, iov.length < 2 ^ 32

/-- `roce_net_decap` from the UDP header on, with `roce_crc32_pkt` as it stands. -/
def decapUdpIovecs (ip : NetHdr) (ihlbuf : List UInt8) (iovs : List (List UInt8)) : Option Decap :=
  (decapToCrc iovs).bind fun (udph, bth, icrc, body) =>
    if roceCrc32PktIovecs ip ihlbuf (UInt8.ofNat ihlbuf.length) udph bth (body.map .buf) ≠
        Bytes.Codec.le32.dec icrc then none
    else some ⟨maskBth bth, maskIp ip, body⟩

/-- `roce_net_decap`, with `roce_crc32_pkt` as it stands. -/
def roceNetDecapIovecs (ctx : RoceCtx) (iovs : List (List UInt8)) : Except Fault (Option Decap) :=
  if iovs = [] then .error (.abort .iovEmpty)
  else
    match portAt ctx 1 with
    | .error e => .error e
    | .ok port =>
      let vneth := roceIovAdvance port.vnetHdr.toNat iovs
      if vneth.1.length ≠ port.vnetHdr.toNat then .ok none
      else
        match takeHdr ethernetCodec vneth.2 with
        | none => .ok none
        | some (ethh, iovs) =>
          if roceMacMatched port.mac ethh.dmac then do
            match ← decapIp ethh.type iovs with
            | none => return none
            | some (ip, ihlbuf, iovs) => return decapUdpIovecs ip ihlbuf iovs
          else .ok none

theorem ShortIovecs.cons {iov iov' : List UInt8} {rest rest' : List (List UInt8)}
    (h : ShortIovecs (iov :: rest)) (hle : iov'.length ≤ iov.length) (hrest : ShortIovecs rest') :
    ShortIovecs (iov' :: rest') :=
  List.forall_mem_cons.mpr ⟨Nat.lt_of_le_of_lt hle (h iov List.mem_cons_self), hrest⟩

theorem ShortIovecs.advance {iovs : List (List UInt8)} (h : ShortIovecs iovs) (bytes : Nat) :
    ShortIovecs (roceIovAdvance bytes iovs).2 := by
  induction iovs generalizing bytes with
  | nil => exact h
  | cons iov rest ih =>
    have hrest : ShortIovecs rest := (List.forall_mem_cons.mp h).2
    rw [roceIovAdvance]
    split
    · exact h
    · split
      · exact h.cons (le_refl _) (ih hrest bytes)
      · split
        · exact h.cons (by rw [List.length_drop]; omega) hrest
        · split
          · exact h.cons (Nat.zero_le _) hrest
          · exact h.cons (Nat.zero_le _) (ih hrest _)

theorem ShortIovecs.reverse {iovs : List (List UInt8)} (h : ShortIovecs iovs) (bytes : Nat) :
    ShortIovecs (roceIovReverse bytes iovs).2 := by
  have hloop : ∀ (iovs : List (List UInt8)) (bytes : Nat), ShortIovecs iovs →
      ShortIovecs (iovReverseLoop bytes iovs).2 := by
    intro iovs
    induction iovs with
    | nil => exact fun _ h => h
    | cons iov rest ih =>
      intro bytes h
      have hrest : ShortIovecs rest := (List.forall_mem_cons.mp h).2
      rw [iovReverseLoop]
      split
      · exact h.cons (le_refl _) (ih bytes hrest)
      · split
        · exact h.cons (by rw [List.length_take]; omega) hrest
        · split
          · exact h.cons (Nat.zero_le _) hrest
          · exact h.cons (Nat.zero_le _) (ih _ hrest)
  intro iov hiov
  exact hloop iovs.reverse bytes (fun i hi => h i (List.mem_reverse.mp hi)) iov (List.mem_reverse.mp hiov)

theorem ShortIovecs.takeHdr {α : Type} {c : Bytes.Codec α} {iovs iovs' : List (List UInt8)} {a : α}
    (h : ShortIovecs iovs) (ht : Libroce.takeHdr c iovs = some (a, iovs')) : ShortIovecs iovs' := by
  obtain ⟨-, -, rfl⟩ := takeHdr_eq_some.mp ht
  exact h.advance _

theorem decapToCrc_short {iovs body : List (List UInt8)} {udph : UdpHdr} {bth : IbBth} {icrc : List UInt8}
    (hshort : ShortIovecs iovs) (h : decapToCrc iovs = some (udph, bth, icrc, body)) : ShortIovecs body := by
  unfold decapToCrc at h
  split at h
  · cases h
  next udph' iovs1 hudp =>
  split at h
  · cases h
  split at h
  · cases h
  split at h
  · cases h
  next bth' iovs2 hbth =>
  dsimp only at h
  split at h
  · cases h
  obtain ⟨-, h⟩ := Prod.mk.inj (Option.some.inj h)
  obtain ⟨-, h⟩ := Prod.mk.inj h
  rw [← (Prod.mk.inj h).2]
  exact ((hshort.takeHdr hudp).takeHdr hbth).reverse 4

theorem decapUdpIovecs_eq {ip : NetHdr} {ihlbuf : List UInt8} {iovs : List (List UInt8)}
    (hihl : ihlbuf.length ≤ 60) (hshort : ShortIovecs iovs) :
    decapUdpIovecs ip ihlbuf iovs = decapUdp ip ihlbuf iovs := by
  have hlen : ihlbuf.length = (UInt8.ofNat ihlbuf.length).toNat := by
    rw [UInt8.toNat_ofNat', Nat.mod_eq_of_lt (by omega)]
  rw [decapUdp_eq]
  unfold decapUdpIovecs
  cases hcrc : decapToCrc iovs with
  | none => rfl
  | some r =>
    obtain ⟨udph, bth, icrc, body⟩ := r
    simp only [Option.bind_some, roceCrc32PktIovecs_short hlen (decapToCrc_short hshort hcrc)]

theorem decapIp_short {type : UInt16} {iovs rest : List (List UInt8)} {ip : NetHdr} {ihlbuf : List UInt8}
    (hshort : ShortIovecs iovs) (h : decapIp type iovs = .ok (some (ip, ihlbuf, rest))) :
    ihlbuf.length ≤ 60 ∧ ShortIovecs rest := by
  unfold decapIp at h
  split at h
  · split at h
    · cases h
    next hdr iovs1 hip =>
    obtain ⟨r, hihl, h⟩ := bind_eq_ok.mp h
    obtain rfl := Option.some.inj (Except.ok.inj h)
    rw [decapIhl_eq] at hihl
    split at hihl
    · cases hihl
    next hfits =>
    obtain ⟨rfl, rfl, rfl⟩ : NetHdr.ip4 hdr = ip ∧ ihlCopied hdr iovs1 = ihlbuf ∧
        (roceIovAdvance (ihlLen hdr).toNat iovs1).2 = rest := by
      simpa using hihl
    exact ⟨by omega, (hshort.takeHdr hip).advance _⟩
  · split at h
    · split at h
      · cases h
      next hdr iovs1 hip =>
      obtain ⟨-, rfl, rfl⟩ : NetHdr.ip6 hdr = ip ∧ [] = ihlbuf ∧ iovs1 = rest := by
        simpa using h
      exact ⟨Nat.zero_le _, hshort.takeHdr hip⟩
    · cases h

/-- **32 bits.**  They are enough for iovecs of less than 4 GiB. -/
theorem roceNetDecapIovecs_eq {ctx : RoceCtx} {iovs : List (List UInt8)} (hshort : ShortIovecs iovs) :
    roceNetDecapIovecs ctx iovs = roceNetDecap ctx iovs := by
  unfold roceNetDecapIovecs roceNetDecap
  by_cases hne : iovs = []
  · rw [if_pos hne, if_pos hne]
  rw [if_neg hne, if_neg hne]
  cases portAt ctx 1 with
  | error e => rfl
  | ok port =>
    dsimp only
    by_cases hvneth : (roceIovAdvance port.vnetHdr.toNat iovs).1.length ≠ port.vnetHdr.toNat
    · rw [if_pos hvneth, if_pos hvneth]
    rw [if_neg hvneth, if_neg hvneth]
    cases heth : takeHdr ethernetCodec (roceIovAdvance port.vnetHdr.toNat iovs).2 with
    | none => rfl
    | some r =>
      obtain ⟨ethh, iovs1⟩ := r
      dsimp only
      have hshort1 := (hshort.advance _).takeHdr heth
      cases hip : decapIp ethh.type iovs1 with
      | error e => rfl
      | ok o =>
        cases o with
        | none => rfl
        | some r =>
          obtain ⟨ip, ihlbuf, iovs2⟩ := r
          obtain ⟨hihl, hshort2⟩ := decapIp_short hshort1 hip
          have hudp : decapUdpIovecs ip ihlbuf iovs2 = decapUdp ip ihlbuf iovs2 :=
            decapUdpIovecs_eq hihl hshort2
          split
          · show Except.ok (decapUdpIovecs ip ihlbuf iovs2) = Except.ok (decapUdp ip ihlbuf iovs2)
            rw [hudp]
          · rfl

/-! ## Acceptance -/

/-- **Acceptance.**  A frame is accepted exactly when its bytes are those of a
valid one, and then it is read as that one. -/
theorem roceNetDecap_iff {ctx : RoceCtx} {iovs : List (List UInt8)} (hshort : ShortIovecs iovs) {bth : IbBth}
    {ip : NetHdr} {body : List UInt8} :
    (∃ rest, roceNetDecapIovecs ctx iovs = .ok (some ⟨bth, ip, rest⟩) ∧ rest.flatten = body) ↔
      ∃ port f, portAt ctx 1 = .ok port ∧ WireFrame.Valid f port ∧ iovs.flatten = f.bytes ∧
        maskBth f.bth = bth ∧ maskIp f.ip = ip ∧ f.body = body := by
  rw [roceNetDecapIovecs_eq hshort]
  constructor
  · rintro ⟨rest, h, rfl⟩
    obtain ⟨port, f, hport, hf, hw, hbth, hip, hbody⟩ := roceNetDecap_bytes h
    exact ⟨port, f, hport, hf, hw, hbth.symm, hip.symm, hbody.symm⟩
  · rintro ⟨port, f, hport, hf, hw, rfl, rfl, rfl⟩
    exact hf.accepted hport hw

/-- A frame over IPv6 with an empty body. -/
def smallFrame (hopLimit : UInt8) (checksum : UInt16) : WireFrame :=
  let ip : NetHdr := .ip6 ⟨0x60000000, 24, 17, hopLimit, Vector.replicate 16 0, Vector.replicate 16 0⟩
  let udph : UdpHdr := ⟨4791, roceV2UdpDport, 24, checksum⟩
  let bth : IbBth := ⟨ibOpcodeSendOnly, 0, rocePkey, 2, 0⟩
  ⟨[], ⟨Vector.replicate 6 0, Vector.replicate 6 0, ethernetIpv6⟩, ip, [], udph, bth, [],
    roceCrc32Pkt ip [] udph bth [[]]⟩

theorem smallFrame_valid (hopLimit : UInt8) (checksum : UInt16) :
    (smallFrame hopLimit checksum).Valid smallPort :=
  ⟨rfl, rfl, rfl, rfl, Nat.zero_le _, rfl, show (24 : UInt16).toUInt32 = 8 + 16 by decide, rfl⟩

instance (iovs : List (List UInt8)) : Decidable (ShortIovecs iovs) :=
  inferInstanceAs (Decidable (∀ iov ∈ iovs, _))

/-- It arrives in two pieces, cut within the IP header. -/
theorem roceNetDecap_iff_pieces :
    ∃ rest, roceNetDecapIovecs smallCtx [(smallFrame 64 0).bytes.take 30, (smallFrame 64 0).bytes.drop 30] =
      .ok (some ⟨maskBth (smallFrame 64 0).bth, maskIp (smallFrame 64 0).ip, rest⟩) ∧ rest.flatten = [] := by
  refine (roceNetDecap_iff (by decide +kernel)).mpr ⟨smallPort, smallFrame 64 0, rfl,
    smallFrame_valid 64 0, ?_, rfl, rfl, rfl⟩
  rw [List.flatten_cons, List.flatten_cons, List.flatten_nil, List.append_nil, List.take_append_drop]

end Libroce
