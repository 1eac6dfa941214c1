import Libroce.Frames
import Libroce.Icrc

/-!
# Frames that the network changed

On the way a router rewrites the fields that the ICRC leaves out, and bits
flip.  What a router does goes unnoticed (`roceNetDecap_routed`).  Flipped bits
within four bytes are noticed, or they are in fields that are left out: a frame
that is accepted all the same is read as the one that was sent
(`roceNetDecap_burst`).

    f.masked                   the bytes under the ICRC, and the ICRC
    register of f.masked  =  a constant, for a valid frame   (Valid.residue)
-/

namespace Libroce

open ReflectedCrc (register shifts word)

/-! ## The bytes under the check -/

/-- The masked bytes from the IP header on, with the ICRC. -/
def WireFrame.masked (f : WireFrame) : List UInt8 :=
  (maskIp f.ip).bytes ++ (f.options ++ (udpCodec.enc (maskUdp f.udph) ++
    (ibBthCodec.enc (maskBth f.bth) ++ (f.body ++ Bytes.Codec.le32.enc f.icrc))))

/-- The same bytes as they are in the frame. -/
def WireFrame.raw (f : WireFrame) : List UInt8 := f.ip.bytes ++ (f.options ++ f.udp)

/-- The bits of a word that is read from its bytes. -/
theorem getLsbD_word_toLE (n x i : Nat) :
    (word ((Bytes.toLE n x).map UInt8.toBitVec) : BitVec 32).getLsbD i =
      (decide (i < 32) && (decide (i < 8 * n) && x.testBit i)) := by
  induction n generalizing x i with
  | zero =>
    show (0#32).getLsbD i = _
    simp
  | succ n ih =>
    have hbyte : x.toUInt8.toBitVec = BitVec.ofNat 8 x := rfl
    rw [Bytes.toLE, List.map_cons, word, BitVec.getLsbD_xor, BitVec.getLsbD_setWidth, hbyte,
      BitVec.getLsbD_ofNat, BitVec.getLsbD_shiftLeft, ih]
    by_cases hlow : i < 8
    · simp [hlow, show i < 8 * (n + 1) by omega]
    · have hbit : (x / 256).testBit (i - 8) = x.testBit i := by
        rw [show 256 = 2 ^ 8 from rfl, Nat.testBit_div_two_pow, Nat.sub_add_cancel (by omega)]
      have hn : (i - 8 < 8 * n) = (i < 8 * (n + 1)) := by
        apply propext
        omega
      by_cases hw : i < 32
      · simp [hlow, hw, hbit, hn, show i - 8 < 32 by omega]
      · simp [hlow, hw]

theorem word_le32 (x : UInt32) : word ((Bytes.Codec.le32.enc x).map UInt8.toBitVec) = x.toBitVec := by
  apply BitVec.eq_of_getLsbD_eq
  intro i hi
  have hbits := getLsbD_word_toLE 4 x.toNat i
  rw [show Bytes.Codec.le32.enc x = Bytes.toLE 4 x.toNat from rfl, hbits]
  simp [hi, BitVec.getLsbD, UInt32.toNat_toBitVec]

theorem icrcPoly_top : icrcPoly.getLsbD (32 - 1) = true := by decide

/-- Behind the bytes it covers the ICRC leads to one register, the same for all frames. -/
theorem WireFrame.Valid.residue {f : WireFrame} {port : RocePort} (hf : f.Valid port) :
    register icrcPoly 0xdebb20e3#32 (f.masked.map UInt8.toBitVec) =
      shifts icrcPoly 32 (BitVec.allOnes 32) := by
  have hcrc : ~~~(roceCrc32Buf 0xdebb20e3 ((maskIp f.ip).bytes ++ (f.options ++
      (udpCodec.enc (maskUdp f.udph) ++ (ibBthCodec.enc (maskBth f.bth) ++ f.body))))) = f.icrc := by
    have happend : ∀ (crc : UInt32) (xs ys : List UInt8),
        roceCrc32Buf crc (xs ++ ys) = roceCrc32Buf (roceCrc32Buf crc xs) ys := fun _ _ _ => List.foldl_append
    rw [← hf.icrc, happend, happend, happend, happend]
    unfold roceCrc32Pkt
    dsimp only
    rw [roceCrc32_eq, List.flatten_cons, List.flatten_nil, List.append_nil]
    cases hip : f.ip with
    | ip4 h => rfl
    | ip6 h =>
      have hoptions := hf.options
      rw [hip] at hoptions
      have hnil : ∀ crc, roceCrc32Buf crc [] = crc := fun _ => rfl
      rw [List.length_eq_zero_iff.mp hoptions, hnil]
  have hmasked : f.masked = ((maskIp f.ip).bytes ++ (f.options ++ (udpCodec.enc (maskUdp f.udph) ++
      (ibBthCodec.enc (maskBth f.bth) ++ f.body)))) ++ Bytes.Codec.le32.enc f.icrc := by
    unfold WireFrame.masked
    simp only [List.append_assoc]
  have hfour : (Bytes.Codec.le32.enc f.icrc).length = 4 := Bytes.Codec.le32.length_enc _
  rw [hmasked, List.map_append,
    ReflectedCrc.register_trailer icrcPoly icrcPoly_top _ (by rw [List.length_map, hfour]), word_le32, ← hcrc,
    UInt32.toBitVec_not, roceCrc32Buf_register]
  rfl

/-! ## Where frames agree -/

/-- Where `xs` and `xs'` agree, `ys` and `ys'` do; all are of one length. -/
structure Tracks (xs xs' ys ys' : List UInt8) : Prop where
  len : xs'.length = xs.length
  left : ys.length = xs.length
  right : ys'.length = xs.length
  same : ∀ i : Nat, xs[i]? = xs'[i]? → ys[i]? = ys'[i]?

theorem Tracks.refl {xs xs' : List UInt8} (h : xs'.length = xs.length) : Tracks xs xs' xs xs' :=
  ⟨h, rfl, h, fun _ hi => hi⟩

theorem Tracks.append {xs xs' ys ys' us us' vs vs' : List UInt8} (h : Tracks xs xs' ys ys')
    (k : Tracks us us' vs vs') : Tracks (xs ++ us) (xs' ++ us') (ys ++ vs) (ys' ++ vs') := by
  have hx := h.len
  have hy := h.left
  have hy' := h.right
  refine ⟨?_, ?_, ?_, ?_⟩
  · rw [List.length_append, List.length_append, hx, k.len]
  · rw [List.length_append, List.length_append, hy, k.left]
  · rw [List.length_append, List.length_append, hy', k.right]
  · intro i hi
    by_cases hlt : i < xs.length
    · rw [List.getElem?_append_left hlt, List.getElem?_append_left (by omega)] at hi
      rw [List.getElem?_append_left (by omega), List.getElem?_append_left (by omega)]
      exact h.same i hi
    · rw [List.getElem?_append_right (by omega), List.getElem?_append_right (by omega), hx] at hi
      rw [List.getElem?_append_right (by omega), List.getElem?_append_right (by omega), hy, hy']
      exact k.same _ hi

theorem Tracks.mask {α : Type} {c : Bytes.Codec α} {mask : α → α} (hmask : c.Bytewise mask) (a b : α) :
    Tracks (c.enc a) (c.enc b) (c.enc (mask a)) (c.enc (mask b)) := by
  refine ⟨?_, ?_, ?_, hmask a b⟩
  · rw [c.length_enc, c.length_enc]
  · rw [c.length_enc, c.length_enc]
  · rw [c.length_enc, c.length_enc]

open Bytes.Codec in
theorem maskIp4_bytewise : ipCodec.Bytewise fun h =>
    { h with tos := 0xff, ttl := 0xff, checksum := 0xffff } :=
  ((bytewise_id u8).seq ((bytewise_const u8 0xff).seq ((bytewise_id be16).seq ((bytewise_id be16).seq
    ((bytewise_id be16).seq ((bytewise_const u8 0xff).seq ((bytewise_id u8).seq
      ((bytewise_const le16 0xffff).seq ((bytewise_id be32).seq (bytewise_id be32)))))))))).iso fun _ => rfl

open Bytes.Codec in
theorem maskIp6_bytewise : ipv6Codec.Bytewise fun h =>
    { h with u32_0 := ipv6VersionTcFl 6 0xff 0xffffff, hopLimit := 0xff } :=
  ((bytewise_const be32 _).seq ((bytewise_id be16).seq ((bytewise_id u8).seq ((bytewise_const u8 0xff).seq
    ((bytewise_id (raw 16)).seq (bytewise_id (raw 16))))))).iso fun _ => rfl

open Bytes.Codec in
theorem maskUdp_bytewise : udpCodec.Bytewise maskUdp :=
  ((bytewise_id be16).seq ((bytewise_id be16).seq ((bytewise_id be16).seq
    (bytewise_const le16 0xffff)))).iso fun _ => rfl

open Bytes.Codec in
theorem maskBth_bytewise : ibBthCodec.Bytewise maskBth :=
  ((bytewise_id u8).seq ((bytewise_id u8).seq ((bytewise_id be16).seq
    ((bytewise_or (~~~ibBthDestqpMask)).seq (bytewise_id be32))))).iso fun _ => rfl

/-- IP headers of one kind. -/
theorem tracks_ip {ip ip' : NetHdr} (h : ip.etherType = ip'.etherType) :
    Tracks ip.bytes ip'.bytes (maskIp ip).bytes (maskIp ip').bytes := by
  cases ip with
  | ip4 a =>
    cases ip' with
    | ip4 b => exact Tracks.mask maskIp4_bytewise a b
    | ip6 b => cases h
  | ip6 a =>
    cases ip' with
    | ip4 b => cases h
    | ip6 b => exact Tracks.mask maskIp6_bytewise a b

/-- Masking works byte by byte. -/
theorem tracks_masked {f f' : WireFrame} (htype : f.ip.etherType = f'.ip.etherType)
    (hoptions : f'.options.length = f.options.length) (hbody : f'.body.length = f.body.length) :
    Tracks f.raw f'.raw f.masked f'.masked := by
  refine (tracks_ip htype).append ((Tracks.refl hoptions).append ((Tracks.mask maskUdp_bytewise _ _).append
    ((Tracks.mask maskBth_bytewise _ _).append ((Tracks.refl hbody).append (Tracks.refl ?_)))))
  rw [Bytes.Codec.length_enc, Bytes.Codec.length_enc]

/-! ## Two frames -/

section frames

variable {f f' : WireFrame} {port : RocePort}

/-- The bytes in front of the IP header. -/
def WireFrame.link (f : WireFrame) : List UInt8 := f.vneth ++ ethernetCodec.enc f.ethh

theorem WireFrame.bytes_eq (f : WireFrame) : f.bytes = f.link ++ f.raw := by
  unfold WireFrame.bytes WireFrame.link WireFrame.raw
  rw [List.append_assoc]

theorem WireFrame.Valid.length_link (hf : f.Valid port) : f.link.length = port.vnetHdr.toNat + 14 := by
  unfold WireFrame.link
  rw [List.length_append, ethernetCodec.length_enc, hf.vneth]
  rfl

theorem WireFrame.getElem_link (f : WireFrame) {i : Nat} (hi : i < f.link.length) :
    f.bytes[i]? = f.link[i]? := by
  rw [f.bytes_eq, List.getElem?_append_left hi]

theorem WireFrame.Valid.getElem_raw (hf : f.Valid port) (i : Nat) :
    f.bytes[port.vnetHdr.toNat + 14 + i]? = f.raw[i]? := by
  rw [f.bytes_eq, List.getElem?_append_right (by rw [hf.length_link]; omega), hf.length_link,
    Nat.add_sub_cancel_left]

theorem ipCodec_head (h : IpHdr) : (ipCodec.enc h)[0]? = some h.u8_0 := by
  show some h.u8_0.toNat.toUInt8 = some h.u8_0
  rw [show h.u8_0.toNat.toUInt8 = h.u8_0 from UInt8.ofNat_toNat]

theorem ihlLen_congr {a b : IpHdr} (h : a.u8_0 = b.u8_0) : ihlLen a = ihlLen b := by
  unfold ihlLen
  rw [h]

/-- The version and header length of an IPv4 header come first behind the link. -/
theorem WireFrame.head_raw {h : IpHdr} (hip : f.ip = .ip4 h) : f.raw[0]? = some h.u8_0 := by
  unfold WireFrame.raw
  rw [hip, List.getElem?_append_left (by show 0 < (ipCodec.enc h).length; rw [ipCodec.length_enc]; decide)]
  exact ipCodec_head h

/-- Valid frames of one length that agree up to the first byte of the IP header
have their parts in the same places. -/
structure SamePlaces (f f' : WireFrame) : Prop where
  type : f.ip.etherType = f'.ip.etherType
  options : f'.options.length = f.options.length
  body : f'.body.length = f.body.length

theorem WireFrame.Valid.samePlaces (hf : f.Valid port) (hf' : f'.Valid port)
    (hlen : f'.bytes.length = f.bytes.length)
    (hsame : ∀ i, i < port.vnetHdr.toNat + 15 → f.bytes[i]? = f'.bytes[i]?) : SamePlaces f f' := by
  have hlink := hf.length_link
  have hlink' := hf'.length_link
  have hbytes : f.link = f'.link := by
    apply List.ext_getElem?
    intro i
    by_cases hi : i < port.vnetHdr.toNat + 14
    · rw [← f.getElem_link (by omega), ← f'.getElem_link (by omega)]
      exact hsame i (by omega)
    · rw [List.getElem?_eq_none (by omega), List.getElem?_eq_none (by omega)]
  have hethh : f.ethh = f'.ethh := by
    have henc := (List.append_inj hbytes (by rw [hf.vneth, hf'.vneth])).2
    rw [← ethernetCodec.dec_enc_self f.ethh, henc, ethernetCodec.dec_enc_self]
  have htype : f.ip.etherType = f'.ip.etherType := by rw [← hf.type, ← hf'.type, hethh]
  have hoptions : f'.options.length = f.options.length := by
    rw [hf'.options, hf.options]
    cases hip : f.ip with
    | ip4 a =>
      cases hip' : f'.ip with
      | ip4 b =>
        have hfirst := hsame (port.vnetHdr.toNat + 14 + 0) (by omega)
        rw [hf.getElem_raw, hf'.getElem_raw, f.head_raw hip, f'.head_raw hip'] at hfirst
        have hu8 : a.u8_0 = b.u8_0 := Option.some.inj hfirst
        exact congrArg UInt8.toNat (ihlLen_congr hu8.symm)
      | ip6 b =>
        rw [hip, hip'] at htype
        cases htype
    | ip6 a =>
      cases hip' : f'.ip with
      | ip4 b =>
        rw [hip, hip'] at htype
        cases htype
      | ip6 b => rfl
  refine ⟨htype, hoptions, ?_⟩
  have hip : f'.ip.bytes.length = f.ip.bytes.length := (tracks_ip htype).len
  rw [f.bytes_eq, f'.bytes_eq, List.length_append, List.length_append, hlink, hlink'] at hlen
  unfold WireFrame.raw WireFrame.udp at hlen
  simp only [List.length_append, Bytes.Codec.length_enc] at hlen
  omega

/-- Equal bytes under the check, in the same places: the same packet. -/
theorem SamePlaces.masked_inj (h : SamePlaces f f') (hm : f.masked = f'.masked) :
    maskBth f'.bth = maskBth f.bth ∧ maskIp f'.ip = maskIp f.ip ∧ f'.body = f.body := by
  unfold WireFrame.masked at hm
  have hiplen := tracks_ip h.type
  obtain ⟨hip, hm⟩ := List.append_inj hm (hiplen.left.trans hiplen.right.symm)
  obtain ⟨-, hm⟩ := List.append_inj hm h.options.symm
  obtain ⟨-, hm⟩ := List.append_inj hm (by rw [Bytes.Codec.length_enc, Bytes.Codec.length_enc])
  obtain ⟨hbth, hm⟩ := List.append_inj hm (by rw [Bytes.Codec.length_enc, Bytes.Codec.length_enc])
  obtain ⟨hbody, -⟩ := List.append_inj hm h.body.symm
  refine ⟨?_, ?_, hbody.symm⟩
  · rw [← ibBthCodec.dec_enc_self (maskBth f'.bth), ← hbth, ibBthCodec.dec_enc_self]
  · have htype := h.type
    cases hf : f.ip with
    | ip4 a =>
      cases hf' : f'.ip with
      | ip4 b =>
        rw [hf, hf'] at hip
        have henc : ipCodec.enc _ = ipCodec.enc _ := hip
        have hmask := congrArg ipCodec.dec henc
        rw [ipCodec.dec_enc_self, ipCodec.dec_enc_self] at hmask
        exact congrArg NetHdr.ip4 hmask.symm
      | ip6 b =>
        rw [hf, hf'] at htype
        cases htype
    | ip6 a =>
      cases hf' : f'.ip with
      | ip4 b =>
        rw [hf, hf'] at htype
        cases htype
      | ip6 b =>
        rw [hf, hf'] at hip
        have henc : ipv6Codec.enc _ = ipv6Codec.enc _ := hip
        have hmask := congrArg ipv6Codec.dec henc
        rw [ipv6Codec.dec_enc_self, ipv6Codec.dec_enc_self] at hmask
        exact congrArg NetHdr.ip6 hmask.symm

/-- Valid frames that differ within four bytes behind the first one of the IP header
carry one packet. -/
theorem WireFrame.Valid.burst (hf : f.Valid port) (hf' : f'.Valid port)
    (hlen : f'.bytes.length = f.bytes.length) {k : Nat} (hk : port.vnetHdr.toNat + 15 ≤ k)
    (hsame : ∀ i, i < k ∨ k + 4 ≤ i → f.bytes[i]? = f'.bytes[i]?) :
    maskBth f'.bth = maskBth f.bth ∧ maskIp f'.ip = maskIp f.ip ∧ f'.body = f.body := by
  have hplaces := hf.samePlaces hf' hlen fun i hi => hsame i (Or.inl (by omega))
  have htracks := tracks_masked hplaces.type hplaces.options hplaces.body
  have hraw : ∀ i, i < k - (port.vnetHdr.toNat + 14) ∨ k - (port.vnetHdr.toNat + 14) + 4 ≤ i →
      (f.masked.map UInt8.toBitVec)[i]? = (f'.masked.map UInt8.toBitVec)[i]? := by
    intro i hi
    have h := hsame (port.vnetHdr.toNat + 14 + i) (by omega)
    rw [hf.getElem_raw, hf'.getElem_raw] at h
    rw [List.getElem?_map, List.getElem?_map, htracks.same i h]
  have hregister : register icrcPoly 0xdebb20e3#32 (f.masked.map UInt8.toBitVec) =
      register icrcPoly 0xdebb20e3#32 (f'.masked.map UInt8.toBitVec) := by
    rw [hf.residue, hf'.residue]
  have hbits := ReflectedCrc.register_window icrcPoly icrcPoly_top (by decide) _
    (by rw [List.length_map, List.length_map, htracks.left, htracks.right])
    (by decide : 8 * 4 ≤ 32) hraw hregister
  refine hplaces.masked_inj (List.map_injective_iff.mpr ?_ hbits)
  exact fun a b h => UInt8.toBitVec_inj.mp h

end frames

/-! ## Corrupted frames -/

section corrupted

variable {ctx : RoceCtx} {port : RocePort} {iovs iovs' : List (List UInt8)}

/-- The one fault of `roce_net_decap` behind an initialised port: more options
than fit. -/
theorem roceNetDecap_error {e : Fault} (hport : portAt ctx 1 = .ok port) (hne : iovs ≠ [])
    (h : roceNetDecap ctx iovs = .error e) :
    ∃ h rest, Ip4Frame port iovs.flatten h rest ∧ 60 < (ihlLen h).toNat := by
  have hoptions : ∃ hdr rest, atOptions ctx iovs = some (hdr, rest) ∧ 60 < (ihlCopied hdr rest).length := by
    unfold roceNetDecap at h
    rw [if_neg hne, hport] at h
    dsimp only at h
    split at h
    · cases h
    next hv =>
    split at h
    · cases h
    next ethh iovs1 heth =>
    split at h
    swap
    · cases h
    next hmac =>
    rcases Machine.bind_eq_error.mp h with hip | ⟨r, -, h⟩
    · unfold decapIp at hip
      split at hip
      · next htype =>
        split at hip
        · cases hip
        next hdr iovs2 htake =>
        rcases Machine.bind_eq_error.mp hip with hihl | ⟨r, -, hip⟩
        · rw [decapIhl_eq] at hihl
          split at hihl
          · next hlong =>
            refine ⟨hdr, iovs2, ?_, hlong⟩
            unfold atOptions
            rw [hport]
            dsimp only
            rw [if_neg hv, heth]
            dsimp only
            rw [if_pos ⟨hmac, htype⟩, htake]
          · cases hihl
        · cases hip
      · split at hip
        · split at hip
          · cases hip
          · cases hip
        · cases hip
    · cases r with
      | none => cases h
      | some r => cases h
  obtain ⟨hdr, rest, hat, hlong⟩ := hoptions
  refine ⟨hdr, rest.flatten, atOptions_frame hport hat, ?_⟩
  rw [length_ihlCopied] at hlong
  omega

/-- A frame that agrees with a valid one in front of the IP header has its Ethernet
header. -/
theorem WireFrame.Valid.ethh_of_same {f : WireFrame} (hf : f.Valid port) {bytes : List UInt8}
    (hsame : ∀ i, i < port.vnetHdr.toNat + 14 → f.bytes[i]? = bytes[i]?) :
    ethernetCodec.dec ((bytes.drop port.vnetHdr.toNat).take 14) = f.ethh := by
  have henc : (bytes.drop port.vnetHdr.toNat).take 14 = ethernetCodec.enc f.ethh := by
    have hwidth : (ethernetCodec.enc f.ethh).length = 14 := ethernetCodec.length_enc _
    have hlink := hf.length_link
    apply List.ext_getElem?
    intro i
    rw [List.getElem?_take]
    split
    · next hi =>
      rw [List.getElem?_drop, ← hsame _ (by omega), f.getElem_link (by omega)]
      unfold WireFrame.link
      rw [List.getElem?_append_right (by rw [hf.vneth]; omega), hf.vneth, Nat.add_sub_cancel_left]
    · rw [List.getElem?_eq_none (by omega)]
  rw [henc, ethernetCodec.dec_enc_self]

theorem NetHdr.ip4_of_etherType {ip : NetHdr} (h : ip.etherType = ethernetIp) : ∃ a, ip = .ip4 a := by
  cases ip with
  | ip4 a => exact ⟨a, rfl⟩
  | ip6 a => cases h

/-- The first byte of an IPv4 frame behind the link. -/
theorem Ip4Frame.head {frame rest : List UInt8} {h : IpHdr} (hf : Ip4Frame port frame h rest) :
    frame[port.vnetHdr.toNat + 14]? = some h.u8_0 := by
  have hlong := hf.long
  have hlen : ((frame.drop (port.vnetHdr.toNat + 14)).take 20).length = ipCodec.width := by
    rw [List.length_take, List.length_drop]
    show _ = 20
    omega
  rw [← ipCodec_head, hf.hdr, ipCodec_onto _ hlen, List.getElem?_take, if_pos (by decide), List.getElem?_drop]

/-- **Bursts.**  A frame that differs from an accepted one within four bytes,
behind the first byte of the IP header, is refused, or it is read as the accepted
one. -/
theorem roceNetDecap_burst {pkt : Decap} (hshort : ShortIovecs iovs) (hshort' : ShortIovecs iovs')
    (hport : portAt ctx 1 = .ok port) (h : roceNetDecapIovecs ctx iovs = .ok (some pkt))
    (hlen : iovs'.flatten.length = iovs.flatten.length) {k : Nat} (hk : port.vnetHdr.toNat + 15 ≤ k)
    (hsame : ∀ i, i < k ∨ k + 4 ≤ i → iovs.flatten[i]? = iovs'.flatten[i]?) :
    roceNetDecapIovecs ctx iovs' = .ok none ∨
      ∃ rest, roceNetDecapIovecs ctx iovs' = .ok (some ⟨pkt.bth, pkt.ip, rest⟩) ∧
        rest.flatten = pkt.iovs.flatten := by
  rw [roceNetDecapIovecs_eq hshort] at h
  rw [roceNetDecapIovecs_eq hshort']
  obtain ⟨port1, f, hport1, hf, hw, hbth, hip, hbody⟩ := roceNetDecap_bytes h
  obtain rfl := Except.ok.inj (hport1.symm.trans hport)
  have hlink := hf.length_link
  cases h' : roceNetDecap ctx iovs' with
  | error e =>
    -- the options are those of the accepted frame, and they fit
    exfalso
    have hne : iovs' ≠ [] := by
      rintro rfl
      rw [hw, f.bytes_eq, List.length_append, hlink, List.flatten_nil, List.length_nil] at hlen
      omega
    obtain ⟨hdr, rest, hframe, hlong⟩ := roceNetDecap_error hport hne h'
    rw [hw] at hsame
    have hethh := hf.ethh_of_same fun i hi => hsame i (Or.inl (by omega))
    obtain ⟨a, hip4⟩ := NetHdr.ip4_of_etherType (hf.type.symm.trans (hethh ▸ hframe.type))
    have hfirst : some hdr.u8_0 = some a.u8_0 := by
      rw [← f.head_raw hip4, ← hf.getElem_raw 0, hsame _ (Or.inl (by omega)), hframe.head]
    have hoptions : f.options.length = (ihlLen a).toNat := by
      rw [hf.options, hip4]
      rfl
    have hfits := hf.fits
    rw [ihlLen_congr (Option.some.inj hfirst)] at hlong
    omega
  | ok r =>
    cases r with
    | none => exact Or.inl rfl
    | some pkt' =>
      obtain ⟨port2, f', hport2, hf', hw', hbth', hip', hbody'⟩ := roceNetDecap_bytes h'
      obtain rfl := Except.ok.inj (hport2.symm.trans hport)
      rw [hw, hw'] at hlen hsame
      obtain ⟨hb, hi, hp⟩ := hf.burst hf' hlen hk hsame
      refine Or.inr ⟨pkt'.iovs, ?_, ?_⟩
      · rw [hbth, hip, ← hb, ← hi, ← hbth', ← hip']
      · rw [hbody', hp, ← hbody]

/-- A frame with the last byte of its destination QP number overwritten is refused. -/
theorem roceNetDecap_burst_byte :
    (roceNetDecapIovecs smallCtx [(smallFrame 64 0).bytes.set 69 7] = .ok none ∨
      ∃ rest, roceNetDecapIovecs smallCtx [(smallFrame 64 0).bytes.set 69 7] =
        .ok (some ⟨maskBth (smallFrame 64 0).bth, maskIp (smallFrame 64 0).ip, rest⟩) ∧ rest.flatten = []) ∧
    (roceNetDecapIovecs smallCtx [(smallFrame 64 0).bytes.set 69 7]).toOption.map Option.isNone =
      some true := by
  have hshort : ShortIovecs [(smallFrame 64 0).bytes] := by decide +kernel
  have hshort' : ShortIovecs [(smallFrame 64 0).bytes.set 69 7] := by decide +kernel
  have hport : portAt smallCtx 1 = .ok smallPort := rfl
  have hflat : ∀ bytes : List UInt8, [bytes].flatten = bytes := fun bytes => List.append_nil bytes
  obtain ⟨rest, h, hrest⟩ := (smallFrame_valid 64 0).accepted hport (hflat _)
  rw [← roceNetDecapIovecs_eq hshort] at h
  have hrest' : rest.flatten = [] := hrest
  rw [← hrest']
  refine ⟨roceNetDecap_burst (k := 69) hshort hshort' hport h ?_ (by decide) ?_, by decide +kernel⟩
  · rw [hflat, hflat, List.length_set]
  · intro i hi
    rw [hflat, hflat, List.getElem?_set_ne (by omega)]

/-! ## Routed frames -/

/-- `f'` is `f` with other values in the fields that a router may rewrite. -/
structure WireFrame.Routed (f f' : WireFrame) : Prop where
  vneth : f'.vneth.length = f.vneth.length
  dmac : f'.ethh.dmac = f.ethh.dmac
  type : f'.ethh.type = f.ethh.type
  ip : maskIp f'.ip = maskIp f.ip
  options : f'.options = f.options
  udph : maskUdp f'.udph = maskUdp f.udph
  bth : maskBth f'.bth = maskBth f.bth
  body : f'.body = f.body
  icrc : f'.icrc = f.icrc

/-- What masking leaves of an IP header. -/
theorem maskIp_kept {ip ip' : NetHdr} (h : maskIp ip' = maskIp ip) :
    ip'.etherType = ip.etherType ∧ ip'.optionsLen = ip.optionsLen := by
  cases ip with
  | ip4 a =>
    cases ip' with
    | ip4 b =>
      have hmask : NetHdr.ip4 _ = NetHdr.ip4 _ := h
      have hhdr := NetHdr.ip4.inj hmask
      have hu8 := congrArg IpHdr.u8_0 hhdr
      exact ⟨rfl, congrArg UInt8.toNat (ihlLen_congr hu8)⟩
    | ip6 b => cases h
  | ip6 a =>
    cases ip' with
    | ip4 b => cases h
    | ip6 b => exact ⟨rfl, rfl⟩

/-- The ICRC does not see the masked fields. -/
theorem roceCrc32Pkt_masked {ip ip' : NetHdr} {udph udph' : UdpHdr} {bth bth' : IbBth}
    (hip : maskIp ip' = maskIp ip) (hudph : maskUdp udph' = maskUdp udph) (hbth : maskBth bth' = maskBth bth)
    (options : List UInt8) (body : List (List UInt8)) :
    roceCrc32Pkt ip' options udph' bth' body = roceCrc32Pkt ip options udph bth body := by
  unfold roceCrc32Pkt
  rw [hip, hudph, hbth]
  cases ip with
  | ip4 a =>
    cases ip' with
    | ip4 b => rfl
    | ip6 b => cases hip
  | ip6 a =>
    cases ip' with
    | ip4 b => cases hip
    | ip6 b => rfl

theorem WireFrame.Routed.valid {f f' : WireFrame} (h : f.Routed f') (hf : f.Valid port) : f'.Valid port := by
  obtain ⟨htype, hlen⟩ := maskIp_kept h.ip
  have hdport := congrArg UdpHdr.dport h.udph
  have hlength := congrArg UdpHdr.length h.udph
  constructor
  · rw [h.vneth, hf.vneth]
  · rw [h.dmac]
    exact hf.mac
  · rw [h.type, hf.type, htype]
  · rw [h.options, hf.options, hlen]
  · rw [h.options]
    exact hf.fits
  · exact hdport.trans hf.dport
  · have hlength : f'.udph.length = f.udph.length := hlength
    rw [hlength, h.body]
    exact hf.length
  · rw [h.options, h.body, h.icrc, roceCrc32Pkt_masked h.ip h.udph h.bth]
    exact hf.icrc

/-- **Routers.**  A frame whose mutable fields were rewritten is read as the frame
that was sent. -/
theorem roceNetDecap_routed {f f' : WireFrame} (hshort : ShortIovecs iovs) (hshort' : ShortIovecs iovs')
    (hport : portAt ctx 1 = .ok port) (hf : f.Valid port) (hrouted : f.Routed f')
    (hw : iovs.flatten = f.bytes) (hw' : iovs'.flatten = f'.bytes) :
    ∃ rest rest', roceNetDecapIovecs ctx iovs = .ok (some ⟨maskBth f.bth, maskIp f.ip, rest⟩) ∧
      roceNetDecapIovecs ctx iovs' = .ok (some ⟨maskBth f.bth, maskIp f.ip, rest'⟩) ∧
      rest'.flatten = rest.flatten := by
  rw [roceNetDecapIovecs_eq hshort, roceNetDecapIovecs_eq hshort']
  obtain ⟨rest, hrest, hbody⟩ := hf.accepted hport hw
  obtain ⟨rest', hrest', hbody'⟩ := (hrouted.valid hf).accepted hport hw'
  rw [hrouted.bth, hrouted.ip] at hrest'
  exact ⟨rest, rest', hrest, hrest', by rw [hbody', hrouted.body, hbody]⟩

end corrupted

/-- One hop further, with another UDP checksum. -/
theorem roceNetDecap_routed_hop : ∃ rest rest',
    roceNetDecapIovecs smallCtx [(smallFrame 64 0).bytes] = .ok (some ⟨maskBth (smallFrame 64 0).bth,
      maskIp (smallFrame 64 0).ip, rest⟩) ∧
    roceNetDecapIovecs smallCtx [(smallFrame 63 1).bytes] = .ok (some ⟨maskBth (smallFrame 64 0).bth,
      maskIp (smallFrame 64 0).ip, rest'⟩) ∧ rest'.flatten = rest.flatten := by
  have hrouted : (smallFrame 64 0).Routed (smallFrame 63 1) :=
    ⟨rfl, rfl, rfl, rfl, rfl, rfl, rfl, rfl, by decide +kernel⟩
  exact roceNetDecap_routed (by decide +kernel) (by decide +kernel) rfl (smallFrame_valid 64 0) hrouted
    (List.append_nil _) (List.append_nil _)

end Libroce
