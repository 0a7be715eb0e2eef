import OrderService.Codec.JsonText
import OrderService.Services.Signature

/-! Which signature strings the check of a webhook accepts, refuses, or throws on: it decodes the
hex digits of the string leniently, and compares buffers that must have one length. -/
namespace OrderService

section Statement

/-- `digest("hex")` of a SHA-256 digest: 64 hex digits, the letters in lower case. -/
def HexDigest (hmacSha256 : String → String → String) : Prop :=
  ∀ key message, (hmacSha256 key message).toList.length = 64 ∧
    ∀ c ∈ (hmacSha256 key message).toList, ∃ d < 16, c = Nat.digitChar d

variable (hmacSha256 : String → String → String) (data : List (String × Json)) (signature : String)
  (signatureKeys : List String) (apiKey : String)

/-- The signature is the HMAC of the signing string, up to letter case. -/
def SignedBy : Prop :=
  ∃ payload, signaturePayload data signatureKeys = .ok payload ∧
    signature.toList.map Char.toLower = (hmacSha256 apiKey payload).toList

/-- The check answers, and its answer is whether the signature is the HMAC. -/
def ExactCheck : Prop :=
  let answer := verifyKashierWebhookSignature hmacSha256 data signature
    (.arr (signatureKeys.map Json.str)) apiKey
  (answer = .ok true ↔ SignedBy hmacSha256 data signature signatureKeys apiKey) ∧
    (¬SignedBy hmacSha256 data signature signatureKeys apiKey → answer = .ok false)

/-- The signature is empty; or the signing string can be formed, exactly 32 pairs of hex digits
stand at the start of the signature, and either nothing stands after them or they are not the
HMAC. -/
def ThirtyTwoPairs : Prop :=
  signature = "" ∨ ∃ payload, signaturePayload data signatureKeys = .ok payload ∧
    (hexBytes signature.toList).length = 32 ∧ (signature.toList.length = 64 ∨
      (signature.toList.take 64).map Char.toLower ≠ (hmacSha256 apiKey payload).toList)

end Statement

section Digits
variable {c : Char} {d : Nat}

theorem of_ascii {P : Char → Prop} (h : ∀ n < 128, P (Char.ofNat n)) (hc : c.toNat < 128) :
    P c := by
  have hn := h c.toNat hc
  rwa [Char.ofNat_toNat] at hn

theorem digitChar_injective : ∀ d < 16, ∀ d' < 16, Nat.digitChar d = Nat.digitChar d' → d = d' := by
  decide

theorem ascii_of_hexValue (h : hexValue c = some d) : c.toNat < 128 := by
  have hle : ∀ hi : Char, c ≤ hi → c.toNat ≤ hi.toNat := fun hi hc => hc
  unfold hexValue at h
  split_ifs at h with hdigit hlower hupper
  · have hnine := hle '9' hdigit.2
    have hval : '9'.toNat = 57 := rfl
    omega
  · have hf := hle 'f' hlower.2
    have hval : 'f'.toNat = 102 := rfl
    omega
  · have hf := hle 'F' hupper.2
    have hval : 'F'.toNat = 70 := rfl
    omega

/-- What `hexValue` and `toLower` make of a character of ASCII. -/
theorem hexValue_ascii : ∀ n < 128,
    (hexValue (Char.ofNat n)).all (fun d =>
      decide (d < 16 ∧ (Char.ofNat n).toLower = Nat.digitChar d)) = true ∧
    hexValue (Char.ofNat n).toLower = hexValue (Char.ofNat n) := by
  decide +kernel

/-- A hex digit is, in lower case, the digit of its value. -/
theorem toLower_of_hexValue (h : hexValue c = some d) : d < 16 ∧ c.toLower = Nat.digitChar d := by
  have hc := of_ascii (P := fun c => (hexValue c).all (fun d =>
    decide (d < 16 ∧ c.toLower = Nat.digitChar d)) = true) (fun n hn => (hexValue_ascii n hn).1)
      (ascii_of_hexValue h)
  rw [h] at hc
  exact of_decide_eq_true hc

theorem hexValue_toLower (c : Char) : hexValue c.toLower = hexValue c := by
  by_cases hc : c.toNat < 128
  · exact of_ascii (P := fun c => hexValue c.toLower = hexValue c)
      (fun n hn => (hexValue_ascii n hn).2) hc
  · have hsame : c.toLower = c := by
      unfold Char.toLower
      rw [dif_neg]
      intro h
      have hz : c.toNat ≤ 'Z'.toNat := h.2
      have hval : 'Z'.toNat = 90 := rfl
      omega
    rw [hsame]

theorem hexBytes_pair (a b : Char) (rest : List Char) : hexBytes (a :: b :: rest)
    = match hexValue a, hexValue b with
      | some x, some y => (16 * x + y) :: hexBytes rest
      | _, _ => [] := rfl

/-- Two digits are decoded to a byte. -/
theorem hexBytes_digits {x y : Nat} (hx : x < 16) (hy : y < 16) (rest : List Char) :
    hexBytes (Nat.digitChar x :: Nat.digitChar y :: rest) = (16 * x + y) :: hexBytes rest := by
  rw [hexBytes_pair, hexValue_digitChar x hx, hexValue_digitChar y hy]

/-- Two digits for every byte. -/
theorem length_hexBytes {cs : List Char} {n : Nat} (hcs : ∀ c ∈ cs, ∃ d < 16, c = Nat.digitChar d)
    (hn : cs.length = 2 * n) : (hexBytes cs).length = n := by
  induction n generalizing cs with
  | zero =>
    rw [List.length_eq_zero_iff.mp hn]
    rfl
  | succ n ih =>
    match cs, hn with
    | a :: b :: rest, hn =>
      obtain ⟨x, hx, rfl⟩ := hcs a List.mem_cons_self
      obtain ⟨y, hy, rfl⟩ := hcs b (List.mem_cons_of_mem _ List.mem_cons_self)
      have hrest : rest.length = 2 * n := by
        simp only [List.length_cons] at hn
        omega
      rw [hexBytes_digits hx hy, List.length_cons,
        ih (fun c hc => hcs c (List.mem_cons_of_mem _ (List.mem_cons_of_mem _ hc))) hrest]

/-- Text that is decoded to something begins with two digits. -/
theorem hexBytes_cons {cs : List Char} {x : Nat} {bytes : List Nat} (h : hexBytes cs = x :: bytes) :
    ∃ a b rest u v, cs = a :: b :: rest ∧ hexValue a = some u ∧ hexValue b = some v ∧
      x = 16 * u + v ∧ bytes = hexBytes rest := by
  match cs with
  | [] => cases h
  | [_] => cases h
  | a :: b :: rest =>
    rw [hexBytes_pair] at h
    split at h
    · next u v hu hv =>
      obtain ⟨hx, hbytes⟩ := List.cons.inj h
      exact ⟨a, b, rest, u, v, rfl, hu, hv, hx.symm, hbytes.symm⟩
    · cases h

/-- Of what is decoded to as many bytes the digits are the same, up to letter case. -/
theorem hexBytes_eq_iff {a b : List Char} {n : Nat} (ha : ∀ c ∈ a, ∃ d < 16, c = Nat.digitChar d)
    (hn : a.length = 2 * n) (hb : (hexBytes b).length = n) :
    hexBytes a = hexBytes b ↔ (b.take (2 * n)).map Char.toLower = a := by
  induction n generalizing a b with
  | zero =>
    rw [List.length_eq_zero_iff.mp hn, List.length_eq_zero_iff.mp hb]
    exact ⟨fun _ => rfl, fun _ => rfl⟩
  | succ n ih =>
    match a, hn with
    | c :: d :: a', hn =>
      obtain ⟨x, hx, rfl⟩ := ha c List.mem_cons_self
      obtain ⟨y, hy, rfl⟩ := ha d (List.mem_cons_of_mem _ List.mem_cons_self)
      have ha' : ∀ c ∈ a', ∃ d < 16, c = Nat.digitChar d := fun c hc =>
        ha c (List.mem_cons_of_mem _ (List.mem_cons_of_mem _ hc))
      have hlength : a'.length = 2 * n := by
        simp only [List.length_cons] at hn
        omega
      obtain ⟨byte, bytes, hbytes⟩ := List.exists_cons_of_length_eq_add_one hb
      obtain ⟨e, f, b', u, v, rfl, hu, hv, hbyte, hrest⟩ := hexBytes_cons hbytes
      obtain ⟨hu16, he⟩ := toLower_of_hexValue hu
      obtain ⟨hv16, hf⟩ := toLower_of_hexValue hv
      have hb' : (hexBytes b').length = n := by
        rw [hbytes, List.length_cons, hrest] at hb
        omega
      have htake : (e :: f :: b').take (2 * (n + 1)) = e :: f :: b'.take (2 * n) := by
        rw [show 2 * (n + 1) = 2 * n + 1 + 1 by omega, List.take_succ_cons, List.take_succ_cons]
      rw [hexBytes_digits hx hy, hbytes, hbyte, hrest, htake, List.map_cons, List.map_cons, he, hf,
        List.cons.injEq, List.cons.injEq, List.cons.injEq, ih ha' hlength hb']
      constructor
      · intro h
        have hux : u = x := by omega
        have hvy : v = y := by omega
        rw [hux, hvy]
        exact ⟨rfl, rfl, h.2⟩
      · intro h
        rw [digitChar_injective u hu16 x hx h.1, digitChar_injective v hv16 y hy h.2.1]
        exact ⟨rfl, h.2.2⟩

/-- Letter case does not matter to what is decoded. -/
theorem hexBytes_map_toLower (cs : List Char) : hexBytes (cs.map Char.toLower) = hexBytes cs := by
  induction cs using hexBytes.induct with
  | case1 a b rest x y hx hy ih =>
    simp only [List.map_cons, hexBytes_pair, hexValue_toLower, hx, hy, ih]
  | case2 a b rest hno =>
    simp only [List.map_cons, hexBytes_pair, hexValue_toLower]
  | case3 cs hshort =>
    rcases cs with _ | ⟨a, _ | ⟨b, rest⟩⟩
    · rfl
    · rfl
    · exact absurd rfl (hshort a b rest)

end Digits

section Result
variable {hmacSha256 : String → String → String} {data : List (String × Json)} {signature : String}
  {signatureKeys : List String} {apiKey payload : String}

theorem spreadKeys_strings (keys : List String) :
    spreadKeys (.arr (keys.map Json.str)) = .ok keys := by
  have hmap : (keys.map Json.str).mapM Json.text = .ok keys := by
    induction keys with
    | nil => rfl
    | cons key keys ih =>
      rw [List.map_cons, List.mapM_cons, ih]
      rfl
  exact hmap

/-- Past the signing string the answer is that of the comparison. -/
theorem verify_eq (hsignature : signature ≠ "") :
    verifyKashierWebhookSignature hmacSha256 data signature (.arr (signatureKeys.map Json.str))
      apiKey = (signaturePayload data signatureKeys).bind fun payload =>
        safeCompare (hmacSha256 apiKey payload) signature := by
  unfold verifyKashierWebhookSignature
  rw [if_neg hsignature, spreadKeys_strings]
  rfl

/-- Where 32 bytes are decoded, they are compared with those of the HMAC. -/
theorem safeCompare_eq {digest : String} (hlength : digest.toList.length = 64)
    (hdigits : ∀ c ∈ digest.toList, ∃ d < 16, c = Nat.digitChar d)
    (hpairs : (hexBytes signature.toList).length = 32) :
    safeCompare digest signature
      = .ok (decide ((signature.toList.take 64).map Char.toLower = digest.toList)) := by
  have hbytes : (hexBytes digest.toList).length = 32 := length_hexBytes hdigits hlength
  unfold safeCompare
  rw [if_neg (by rw [hbytes, hpairs]; exact fun h => h rfl)]
  exact congrArg Except.ok (decide_eq_decide.mpr (hexBytes_eq_iff hdigits hlength hpairs))

theorem signedBy_iff (hpayload : signaturePayload data signatureKeys = .ok payload) :
    SignedBy hmacSha256 data signature signatureKeys apiKey ↔
      signature.toList.map Char.toLower = (hmacSha256 apiKey payload).toList := by
  constructor
  · intro h
    obtain ⟨payload', hpayload', hsame⟩ := h
    rw [hpayload] at hpayload'
    rwa [Except.ok.inj hpayload']
  · exact fun h => ⟨payload, hpayload, h⟩

/-- The check is exact where the signature is empty or has 32 pairs of hex digits in front, and not
the HMAC with something after it. -/
theorem signature_check_exact_iff (hhex : HexDigest hmacSha256) (data : List (String × Json))
    (signature : String) (signatureKeys : List String) (apiKey : String) :
    ExactCheck hmacSha256 data signature signatureKeys apiKey ↔
      ThirtyTwoPairs hmacSha256 data signature signatureKeys apiKey := by
  unfold ExactCheck ThirtyTwoPairs
  dsimp only
  by_cases hempty : signature = ""
  · -- an empty signature is refused, and is no HMAC
    have hnot : ¬SignedBy hmacSha256 data signature signatureKeys apiKey := by
      intro h
      obtain ⟨payload, -, hsame⟩ := h
      have hlength := congrArg List.length hsame
      rw [hempty, (hhex apiKey payload).1] at hlength
      cases hlength
    have hfalse : verifyKashierWebhookSignature hmacSha256 data signature
        (.arr (signatureKeys.map Json.str)) apiKey = .ok false := if_pos hempty
    rw [hfalse]
    exact ⟨fun _ => .inl hempty, fun _ => ⟨⟨fun h => (by cases h), fun h => absurd h hnot⟩,
      fun _ => rfl⟩⟩
  rw [verify_eq hempty]
  cases hpayload : signaturePayload data signatureKeys with
  | error err =>
    have hnot : ¬SignedBy hmacSha256 data signature signatureKeys apiKey := by
      intro h
      obtain ⟨payload, hok, -⟩ := h
      rw [hpayload] at hok
      cases hok
    constructor
    · intro h
      have hthrows := h.2 hnot
      cases hthrows
    · intro h
      obtain hsig | ⟨payload, hok, -⟩ := h
      · exact absurd hsig hempty
      · cases hok
  | ok payload =>
    obtain ⟨hlength, hdigits⟩ := hhex apiKey payload
    show ((safeCompare (hmacSha256 apiKey payload) signature = .ok true ↔ _) ∧
      (_ → safeCompare (hmacSha256 apiKey payload) signature = .ok false)) ↔ _
    rw [signedBy_iff hpayload]
    have hdecoded : signature.toList.map Char.toLower = (hmacSha256 apiKey payload).toList →
        (hexBytes signature.toList).length = 32 := by
      intro h
      rw [← hexBytes_map_toLower, h]
      exact length_hexBytes hdigits hlength
    have hwhole : signature.toList.map Char.toLower = (hmacSha256 apiKey payload).toList ↔
        signature.toList.length = 64 ∧
          (signature.toList.take 64).map Char.toLower = (hmacSha256 apiKey payload).toList := by
      constructor
      · intro h
        have h64 : signature.toList.length = 64 := by
          rw [← List.length_map (f := Char.toLower), h, hlength]
        rw [List.take_of_length_le h64.le]
        exact ⟨h64, h⟩
      · intro h
        have hsame := h.2
        rwa [List.take_of_length_le h.1.le] at hsame
    by_cases hpairs : (hexBytes signature.toList).length = 32
    · rw [safeCompare_eq hlength hdigits hpairs]
      simp only [Except.ok.injEq, decide_eq_true_eq, decide_eq_false_iff_not, hwhole]
      constructor
      · intro h
        by_cases h64 : signature.toList.length = 64
        · exact .inr ⟨payload, rfl, hpairs, .inl h64⟩
        · exact .inr ⟨payload, rfl, hpairs, .inr (h.2 fun hboth => h64 hboth.1)⟩
      · intro h
        obtain hsig | ⟨payload', rfl, -, h64 | hother⟩ := h
        · exact absurd hsig hempty
        · exact ⟨⟨fun hfront => ⟨h64, hfront⟩, fun h => h.2⟩, fun h hfront => h ⟨h64, hfront⟩⟩
        · exact ⟨⟨fun hfront => absurd hfront hother, fun h => h.2⟩, fun _ => hother⟩
    · -- buffers of different lengths: the comparison throws
      have hthrows : safeCompare (hmacSha256 apiKey payload) signature
          = .error (.error "Input buffers must have the same byte length") := by
        have hbytes : (hexBytes (hmacSha256 apiKey payload).toList).length = 32 :=
          length_hexBytes hdigits hlength
        unfold safeCompare
        exact if_pos fun h => hpairs (h.symm.trans hbytes)
      rw [hthrows]
      constructor
      · intro h
        have hfalse := h.2 fun hsame => hpairs (hdecoded hsame)
        cases hfalse
      · intro h
        obtain hsig | ⟨payload', -, h32, -⟩ := h
        · exact absurd hsig hempty
        · exact absurd h32 hpairs

end Result

section Samples

/-- HMAC-SHA256 under the key `api-key`, on the signing string below. -/
def payHmac (_ message : String) : String :=
  if message = "merchantOrderId=order-1&status=SUCCESS&transactionId=T1" then
    "93d0e1f5fe17859e75b6559696fdef950179fffea17abec0dec699ecf99ffe2e"
  else "0000000000000000000000000000000000000000000000000000000000000000"

/-- A string of hex digits in lower case. -/
theorem hexDigits_of_all {s : String}
    (hall : s.toList.all (fun c => "0123456789abcdef".toList.elem c) = true) :
    ∀ c ∈ s.toList, ∃ d < 16, c = Nat.digitChar d := by
  intro c hc
  have hdigit := List.mem_of_elem_eq_true (List.all_eq_true.mp hall c hc)
  have hdigits : "0123456789abcdef".toList = (List.range 16).map Nat.digitChar := by decide
  rw [hdigits] at hdigit
  obtain ⟨d, hd, rfl⟩ := List.mem_map.mp hdigit
  exact ⟨d, List.mem_range.mp hd, rfl⟩

theorem payHmac_hexDigest : HexDigest payHmac := by
  intro key message
  unfold payHmac
  split_ifs
  · exact ⟨by decide, hexDigits_of_all (by decide)⟩
  · exact ⟨by decide, hexDigits_of_all (by decide)⟩

def paidData : List (String × Json) :=
  [("transactionId", .str "T1"), ("merchantOrderId", .str "order-1"), ("status", .str "SUCCESS")]

def paidKeys : List String := ["transactionId", "merchantOrderId", "status"]

/-- The HMAC in capital letters is accepted. -/
theorem signature_check_exact_capitals :
    ExactCheck payHmac paidData "93D0E1F5FE17859E75B6559696FDEF950179FFFEA17ABEC0DEC699ECF99FFE2E"
        paidKeys "api-key" ∧
      verifyKashierWebhookSignature payHmac paidData
        "93D0E1F5FE17859E75B6559696FDEF950179FFFEA17ABEC0DEC699ECF99FFE2E"
        (.arr (paidKeys.map Json.str)) "api-key" = .ok true := by
  have hpayload : signaturePayload paidData paidKeys
      = .ok "merchantOrderId=order-1&status=SUCCESS&transactionId=T1" := by decide +kernel
  refine ⟨(signature_check_exact_iff payHmac_hexDigest _ _ _ _).mpr
    (.inr ⟨_, hpayload, by decide +kernel, .inl (by decide)⟩), ?_⟩
  rw [verify_eq (by decide), hpayload]
  decide +kernel

/-- A signature that is cut short makes the comparison throw. -/
theorem short_signature_throws :
    verifyKashierWebhookSignature payHmac paidData "93d0" (.arr (paidKeys.map Json.str)) "api-key"
        = .error (.error "Input buffers must have the same byte length") ∧
      ¬ExactCheck payHmac paidData "93d0" paidKeys "api-key" := by
  have hthrows : verifyKashierWebhookSignature payHmac paidData "93d0"
      (.arr (paidKeys.map Json.str)) "api-key"
        = .error (.error "Input buffers must have the same byte length") := by decide +kernel
  refine ⟨hthrows, fun h => ?_⟩
  have hnot : ¬SignedBy payHmac paidData "93d0" paidKeys "api-key" := by
    intro hsigned
    obtain ⟨payload, -, hsame⟩ := hsigned
    have hlength := congrArg List.length hsame
    rw [(payHmac_hexDigest "api-key" payload).1] at hlength
    cases hlength
  have hfalse := h.2 hnot
  rw [hthrows] at hfalse
  cases hfalse

end Samples

end OrderService
