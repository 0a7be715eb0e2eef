import Mathlib.Data.Set.Insert
import OrderService.WebhookSpec

/-! Which fields of a payment webhook its signature binds. -/
namespace OrderService
open QueryString

section Statement

/-- A message of the provider. Its fields are strings, the empty one where a field is missing, and
its keys are plain names. -/
structure ProviderMessage where
  data : String → String
  keys : List String
  plain : ∀ k ∈ keys, '=' ∉ k.toList ∧ '&' ∉ k.toList

/-- The string that the provider signs. -/
def ProviderMessage.signingString (m : ProviderMessage) : String :=
  String.ofList (join '&' ((sortKeys m.keys).map fun k => pair unescaped k (m.data k)))

/-- The fields that the processing of a webhook goes by. -/
structure Acted where
  transactionId : String
  reference : String
  status : String

def ProviderMessage.acted (m : ProviderMessage) : Acted where
  transactionId := m.data "transactionId"
  reference :=
    if m.data "merchantOrderId" ≠ "" then m.data "merchantOrderId" else m.data "orderReference"
  status := m.data "status"

/-- `String(value)`, and nothing for a missing value. -/
def valueText : Option Json → Except Err String
  | none => .ok ""
  | some .null => .ok ""
  | some v => v.text

/-- What the service acts on. -/
def actedOn (data : List (String × Json)) : Except Err Acted := do
  let transactionId ← valueText (getField data "transactionId")
  let reference ← valueText (orderReference data)
  let status ← valueText (getField data "status")
  pure ⟨transactionId, reference, status⟩

/-- The string over which the service checks the signature. -/
def signingString (data : List (String × Json)) : Except Err String := do
  let keys ← spreadKeys (signatureKeysOf data)
  signaturePayload data keys

/-- The signature verifies only for strings that the provider has signed. -/
def Unforgeable (hmacSha256 : String → String → String) (apiKey signature : String)
    (signed : Set ProviderMessage) : Prop :=
  ∀ message, safeCompare (hmacSha256 apiKey message) signature = .ok true →
    ∃ m ∈ signed, m.signingString = message

/-- What the service acts on is that of one signed message. -/
def Bound (signed : Set ProviderMessage) (data : List (String × Json)) : Prop :=
  ∃ m ∈ signed, actedOn data = .ok m.acted

/-- One of the `&`-separated parts is this field with this value. -/
def Stands (payload field value : String) : Prop :=
  pair unescaped field value ∈ split '&' payload.toList

/-- The signing string shows the transaction, the status and the order acted on. -/
def Shows (payload : String) (acted : Acted) : Prop :=
  Stands payload "transactionId" acted.transactionId ∧ Stands payload "status" acted.status ∧
    ((acted.reference ≠ "" ∧ Stands payload "merchantOrderId" acted.reference) ∨
      (Stands payload "merchantOrderId" "" ∧ Stands payload "orderReference" acted.reference))

/-- The signing string of a webhook shows what the service acts on. -/
def Covers (data : List (String × Json)) : Prop :=
  ∃ payload acted, signingString data = .ok payload ∧ actedOn data = .ok acted ∧
    Shows payload acted

end Statement

section Parts
variable {m : ProviderMessage} {field value : String}

theorem unescaped_sound : Sound unescaped := rfl

theorem ampersand_not_mem_encode (s : String) : '&' ∉ encode unescaped s := by
  apply not_mem_encode
  · intro b hb heq
    have hb38 : b = 38 := charOfByte_inj (heq.trans (by decide))
    rw [hb38] at hb
    exact absurd hb (by decide)
  · decide
  · decide

theorem ampersand_not_mem_pair {key : String} (hkey : '&' ∉ key.toList) (value : String) :
    '&' ∉ pair unescaped key value := by
  intro hmem
  rcases List.mem_append.mp hmem with hmem | hmem
  · exact hkey hmem
  · rcases List.mem_cons.mp hmem with heq | hmem
    · exact absurd heq (by decide)
    · exact ampersand_not_mem_encode value hmem

theorem mem_sortKeys {k : String} {keys : List String} : k ∈ sortKeys keys ↔ k ∈ keys :=
  (List.perm_insertionSort _ keys).mem_iff

/-- A plain field stands in a signed string exactly with its value. -/
theorem stands_iff (hfield : '=' ∉ field.toList) :
    Stands m.signingString field value ↔ field ∈ m.keys ∧ m.data field = value := by
  have hparts : ∀ part ∈ (sortKeys m.keys).map fun k => pair unescaped k (m.data k),
      '&' ∉ part := by
    intro part hpart
    obtain ⟨k, hk, rfl⟩ := List.mem_map.mp hpart
    exact ampersand_not_mem_pair (m.plain k (mem_sortKeys.mp hk)).2 _
  unfold Stands ProviderMessage.signingString
  rw [String.toList_ofList]
  by_cases hnil : (sortKeys m.keys).map (fun k => pair unescaped k (m.data k)) = []
  · -- Nothing is signed, and the only part is empty.
    have hkeys : field ∉ m.keys := by
      intro hmem
      have hmem' := List.mem_map_of_mem (f := fun k => pair unescaped k (m.data k))
        (mem_sortKeys.mpr hmem)
      rw [hnil] at hmem'
      cases hmem'
    rw [hnil]
    constructor
    · intro hmem
      have hempty : pair unescaped field value = [] := List.mem_singleton.mp hmem
      exact absurd hempty (by simp [pair])
    · exact fun h => absurd h.1 hkeys
  · rw [split_join hnil hparts]
    constructor
    · intro hmem
      obtain ⟨k, hk, hpair⟩ := List.mem_map.mp hmem
      have hkey := mem_sortKeys.mp hk
      obtain ⟨rfl, hvalue⟩ := pair_inj unescaped_sound (m.plain k hkey).1 hfield hpair
      exact ⟨hkey, hvalue⟩
    · rintro ⟨hkey, rfl⟩
      exact List.mem_map_of_mem (f := fun k => pair unescaped k (m.data k))
        (mem_sortKeys.mpr hkey)

/-- The same message with another value in a field that it does not sign. -/
def ProviderMessage.altered (m : ProviderMessage) (field value : String) : ProviderMessage :=
  { m with data := Function.update m.data field value }

theorem altered_signingString (h : field ∉ m.keys) :
    (m.altered field value).signingString = m.signingString := by
  unfold ProviderMessage.signingString
  congr 2
  apply List.map_congr_left
  intro k hk
  have hne : k ≠ field := by
    rintro rfl
    exact h (mem_sortKeys.mp hk)
  have hvalue : (m.altered field value).data k = m.data k := by
    change Function.update m.data field value k = m.data k
    exact Function.update_of_ne hne value m.data
  rw [hvalue]

end Parts

section Binding
variable {m : ProviderMessage} {payload : String} {acted : Acted}

theorem acted_of_shows (h : Shows payload acted) (hm : m.signingString = payload) :
    m.acted = acted := by
  obtain ⟨htransaction, hstatus, hreference⟩ := h
  subst hm
  obtain ⟨transactionId, reference, status⟩ := acted
  have htransactionId : m.data "transactionId" = transactionId :=
    ((stands_iff (by decide)).mp htransaction).2
  have hstatus' : m.data "status" = status := ((stands_iff (by decide)).mp hstatus).2
  have hreference' : m.acted.reference = reference := by
    unfold ProviderMessage.acted
    rcases hreference with ⟨hne, hmerchant⟩ | ⟨hmerchant, horder⟩
    · rw [((stands_iff (by decide)).mp hmerchant).2, if_pos hne]
    · rw [((stands_iff (by decide)).mp hmerchant).2, if_neg (by simp),
        ((stands_iff (by decide)).mp horder).2]
  have hacted : m.acted = ⟨m.data "transactionId", m.acted.reference, m.data "status"⟩ := rfl
  rw [hacted, htransactionId, hreference', hstatus']

theorem append_ne_self (s : String) : s ++ "x" ≠ s := by
  intro h
  have hlength := congrArg String.length h
  rw [String.length_append] at hlength
  exact absurd hlength (by simp)

/-- When every message with this signing string is acted on alike, the string shows it: a field
that is not signed could be another one. -/
theorem shows_of_acted (hm : m.signingString = payload)
    (h : ∀ m' : ProviderMessage, m'.signingString = payload → m'.acted = acted) :
    Shows payload acted := by
  have hself := h m hm
  have haltered (field value : String) (hfield : field ∉ m.keys) :
      (m.altered field value).acted = acted := h _ ((altered_signingString hfield).trans hm)
  subst hm
  have hstands {field value : String} (hplain : '=' ∉ field.toList) (hkey : field ∈ m.keys)
      (hvalue : m.data field = value) : Stands m.signingString field value :=
    (stands_iff hplain).mpr ⟨hkey, hvalue⟩
  refine ⟨hstands (by decide) ?_ (congrArg Acted.transactionId hself),
    hstands (by decide) ?_ (congrArg Acted.status hself), ?_⟩
  · by_contra hkey
    have hother := congrArg Acted.transactionId
      (haltered "transactionId" (acted.transactionId ++ "x") hkey)
    exact append_ne_self _ hother
  · by_contra hkey
    have hother := congrArg Acted.status (haltered "status" (acted.status ++ "x") hkey)
    exact append_ne_self _ hother
  have hmerchant : "merchantOrderId" ∈ m.keys := by
    by_contra hkey
    have hother := congrArg Acted.reference
      (haltered "merchantOrderId" (acted.reference ++ "x") hkey)
    have hne : acted.reference ++ "x" ≠ "" := by simp
    have hvalue : (m.altered "merchantOrderId" (acted.reference ++ "x")).acted.reference
        = acted.reference ++ "x" := if_pos hne
    exact append_ne_self _ (hvalue.symm.trans hother)
  have hreference := congrArg Acted.reference hself
  by_cases hempty : m.data "merchantOrderId" = ""
  · -- The message falls back to the order reference, which must be signed too.
    refine .inr ⟨hstands (by decide) hmerchant hempty, ?_⟩
    have hfallback : m.acted.reference = m.data "orderReference" := if_neg (by simpa using hempty)
    refine hstands (by decide) ?_ (hfallback.symm.trans hreference)
    by_contra hkey
    have hother := congrArg Acted.reference
      (haltered "orderReference" (acted.reference ++ "x") hkey)
    have hvalue : (m.altered "orderReference" (acted.reference ++ "x")).acted.reference
        = acted.reference ++ "x" := if_neg (by simpa [ProviderMessage.altered] using hempty)
    exact append_ne_self _ (hvalue.symm.trans hother)
  · have hown : m.acted.reference = m.data "merchantOrderId" := if_pos hempty
    have hvalue : m.data "merchantOrderId" = acted.reference := hown.symm.trans hreference
    refine .inl ⟨?_, hstands (by decide) hmerchant hvalue⟩
    rw [← hvalue]
    exact hempty

variable (hmacSha256 : String → String → String)

theorem verified_payload {data : List (String × Json)} {signature apiKey : String}
    (h : verifyKashierWebhookSignature hmacSha256 data signature (signatureKeysOf data) apiKey
      = .ok true) :
    ∃ payload, signingString data = .ok payload ∧
      safeCompare (hmacSha256 apiKey payload) signature = .ok true := by
  unfold verifyKashierWebhookSignature at h
  split_ifs at h
  · cases h
  cases hkeys : spreadKeys (signatureKeysOf data) with
  | error e =>
    rw [hkeys] at h
    cases h
  | ok keys =>
    rw [hkeys] at h
    change (signaturePayload data keys >>= _) = _ at h
    cases hpayload : signaturePayload data keys with
    | error e =>
      rw [hpayload] at h
      cases h
    | ok payload =>
      rw [hpayload] at h
      refine ⟨payload, ?_, h⟩
      unfold signingString
      rw [hkeys]
      exact hpayload

/-- An accepted webhook is acted on as one of the signed messages, whatever the provider signed,
exactly when its signing string shows the fields it is acted on by. -/
theorem signature_binds_iff (apiKey signature : String) (data : List (String × Json))
    (haccepted : verifyKashierWebhookSignature hmacSha256 data signature (signatureKeysOf data)
      apiKey = .ok true)
    (hunique : ∀ message, safeCompare (hmacSha256 apiKey message) signature = .ok true →
      signingString data = .ok message)
    (hsignable : ∃ m : ProviderMessage, signingString data = .ok m.signingString) :
    (∀ signed, Unforgeable hmacSha256 apiKey signature signed → Bound signed data) ↔
      Covers data := by
  constructor
  · intro hbound
    obtain ⟨m, hm⟩ := hsignable
    -- The provider may have signed one message alone, any with this string.
    have halone (m' : ProviderMessage) (hm' : m'.signingString = m.signingString) :
        actedOn data = .ok m'.acted := by
      have hunforgeable : Unforgeable hmacSha256 apiKey signature {m'} := by
        intro message hmessage
        have hsame := Except.ok.inj (hm.symm.trans (hunique message hmessage))
        exact ⟨m', rfl, hm'.trans hsame⟩
      obtain ⟨n, hn, hnacted⟩ := hbound {m'} hunforgeable
      rw [Set.mem_singleton_iff.mp hn] at hnacted
      exact hnacted
    have hacted := halone m rfl
    refine ⟨m.signingString, m.acted, hm, hacted, shows_of_acted rfl fun m' hm' => ?_⟩
    exact Except.ok.inj ((halone m' hm').symm.trans hacted)
  · rintro ⟨payload, acted, hpayload, hacted, hshows⟩ signed hunforgeable
    obtain ⟨payload', hpayload', hverifies⟩ := verified_payload hmacSha256 haccepted
    obtain rfl : payload' = payload := Except.ok.inj (hpayload'.symm.trans hpayload)
    obtain ⟨m, hm, hstring⟩ := hunforgeable payload' hverifies
    exact ⟨m, hm, by rw [hacted, acted_of_shows hshows hstring]⟩

end Binding

/-- The message that the provider signed for a payment. -/
def payMessage (status : String) : ProviderMessage where
  data field :=
    if field = "transactionId" then "T1" else if field = "merchantOrderId" then "order-1"
    else if field = "status" then status else ""
  keys := ["transactionId", "merchantOrderId", "status"]
  plain := by decide +kernel

theorem paySignature_unique {message : String}
    (h : safeCompare (sampleHmac "api-key" message) (paySignature "SUCCESS") = .ok true) :
    message = "merchantOrderId=order-1&status=SUCCESS&transactionId=T1" := by
  unfold sampleHmac at h
  split_ifs at h with hfailed hsuccess
  · exact absurd h (by decide +kernel)
  · exact hsuccess
  · exact absurd h (by decide +kernel)

theorem signature_binds_iff_payment :
    (∀ signed, Unforgeable sampleHmac "api-key" (paySignature "SUCCESS") signed →
      Bound signed (payData "SUCCESS")) ↔ Covers (payData "SUCCESS") := by
  have hstring : signingString (payData "SUCCESS")
      = .ok "merchantOrderId=order-1&status=SUCCESS&transactionId=T1" := by decide +kernel
  apply signature_binds_iff sampleHmac "api-key" (paySignature "SUCCESS") (payData "SUCCESS")
    (by decide +kernel)
  · intro message hmessage
    rw [paySignature_unique hmessage]
    exact hstring
  · exact ⟨payMessage "SUCCESS", by decide⟩

/-- A key that spells out the signed string up to its last value frees the real fields. -/
def forgedData : List (String × Json) :=
  [("transactionId", .str "T2"), ("merchantOrderId", .str "order-2"), ("status", .str "SUCCESS"),
    ("merchantOrderId=order-1&status=SUCCESS&transactionId", .str "T1"),
    ("signatureKeys", .arr [.str "merchantOrderId=order-1&status=SUCCESS&transactionId"])]

/-- With the signature of one payment a webhook about another order and transaction is accepted. -/
theorem forged_webhook_accepted :
    parseEnvelope (some (.obj [("event", .str "pay"), ("data", .obj forgedData)]))
      = .ok ⟨.str "pay", forgedData⟩ ∧
    verifyKashierWebhookSignature sampleHmac forgedData (paySignature "SUCCESS")
      (signatureKeysOf forgedData) "api-key" = .ok true ∧
    Unforgeable sampleHmac "api-key" (paySignature "SUCCESS") {payMessage "SUCCESS"} ∧
    ¬Bound {payMessage "SUCCESS"} forgedData := by
  refine ⟨rfl, by decide +kernel, ?_, ?_⟩
  · intro message hmessage
    refine ⟨payMessage "SUCCESS", rfl, ?_⟩
    rw [paySignature_unique hmessage]
    decide +kernel
  · rintro ⟨m, hm, hacted⟩
    rw [Set.mem_singleton_iff.mp hm] at hacted
    have hother : (Except.ok "T2" : Except Err String) = .ok "T1" :=
      congrArg (fun r => r.map Acted.transactionId) hacted
    exact absurd hother (by decide +kernel)

end OrderService
