import Mathlib.Data.List.Basic

/-! Percent encoding of strings and `&`-joined `key=value` pairs. Bytes that `keep` accepts stand
for themselves, every other byte is written as `%` and two hex digits. -/
namespace QueryString

def hexDigit (n : Nat) : Char := Char.ofNat (if n < 10 then 48 + n else 55 + n)

def encodeByte (keep : UInt8 → Bool) (b : UInt8) : List Char :=
  if keep b then [Char.ofNat b.toNat] else ['%', hexDigit (b.toNat / 16), hexDigit (b.toNat % 16)]

def encodeBytes (keep : UInt8 → Bool) (bs : List UInt8) : List Char :=
  bs.flatMap (encodeByte keep)

def encode (keep : UInt8 → Bool) (s : String) : List Char :=
  encodeBytes keep s.toByteArray.data.toList

/-- `key=value` with the key as it is and the value encoded. -/
def pair (keep : UInt8 → Bool) (key value : String) : List Char :=
  key.toList ++ '=' :: encode keep value

def join (sep : Char) : List (List Char) → List Char
  | [] => []
  | [w] => w
  | w :: v :: ws => w ++ sep :: join sep (v :: ws)

def split (sep : Char) : List Char → List (List Char)
  | [] => [[]]
  | c :: cs =>
    if c = sep then [] :: split sep cs
    else match split sep cs with
      | [] => [[c]]
      | w :: ws => (c :: w) :: ws

section Splitting
variable {sep : Char}

theorem split_word {w : List Char} (hw : sep ∉ w) : split sep w = [w] := by
  induction w with
  | nil => rfl
  | cons c cs ih =>
    rw [List.mem_cons, not_or] at hw
    have hc : ¬c = sep := fun h => hw.1 h.symm
    simp only [split, hc, ih hw.2, if_false]

theorem split_append {w rest : List Char} (hw : sep ∉ w) :
    split sep (w ++ sep :: rest) = w :: split sep rest := by
  induction w with
  | nil => simp only [List.nil_append, split, if_true]
  | cons c cs ih =>
    rw [List.mem_cons, not_or] at hw
    have hc : ¬c = sep := fun h => hw.1 h.symm
    simp only [List.cons_append, split, hc, ih hw.2, if_false]

/-- Words without the separator come back out of their join. -/
theorem split_join {ws : List (List Char)} (hne : ws ≠ []) (hws : ∀ w ∈ ws, sep ∉ w) :
    split sep (join sep ws) = ws := by
  induction ws with
  | nil => exact absurd rfl hne
  | cons w ws ih =>
    have hw : sep ∉ w := hws w List.mem_cons_self
    cases ws with
    | nil => exact split_word hw
    | cons v ws =>
      rw [join, split_append hw]
      rw [ih (List.cons_ne_nil v ws) fun u hu => hws u (List.mem_cons_of_mem w hu)]

end Splitting

section Encoding
variable {keep : UInt8 → Bool}

/-- Which bytes stand for themselves: not the percent sign. -/
def Sound (keep : UInt8 → Bool) : Prop := keep 37 = false

theorem hexDigit_inj {m n : Nat} (hm : m < 16) (hn : n < 16) (h : hexDigit m = hexDigit n) :
    m = n := by
  have hall : ∀ a b : Fin 16, hexDigit a = hexDigit b → a = b := by decide
  exact congrArg Fin.val (hall ⟨m, hm⟩ ⟨n, hn⟩ h)

theorem charOfByte_inj {a b : UInt8} (h : Char.ofNat a.toNat = Char.ofNat b.toNat) : a = b := by
  have hvalid : ∀ c : UInt8, (Char.ofNat c.toNat).toNat = c.toNat := by
    intro c
    have hc : c.toNat < 256 := c.toNat_lt
    have hvalid : c.toNat.isValidChar := .inl (by omega)
    rw [Char.ofNat, dif_pos hvalid]
    rfl
  have hnat : a.toNat = b.toNat := by rw [← hvalid a, ← hvalid b, h]
  exact UInt8.toNat_inj.mp hnat

theorem percent_ne_of_keep (hk : Sound keep) {b : UInt8} (hb : keep b = true) :
    Char.ofNat b.toNat ≠ '%' := by
  intro h
  have hb37 : b = 37 := charOfByte_inj (h.trans (by decide))
  rw [hb37, hk] at hb
  exact Bool.false_ne_true hb

/-- No encoded byte is a proper prefix of another one. -/
theorem encodeByte_append_inj (hk : Sound keep) {a b : UInt8} {r t : List Char}
    (h : encodeByte keep a ++ r = encodeByte keep b ++ t) : a = b ∧ r = t := by
  unfold encodeByte at h
  by_cases ha : keep a = true <;> by_cases hb : keep b = true
  · simp only [ha, hb, if_true, List.cons_append, List.nil_append, List.cons.injEq] at h
    exact ⟨charOfByte_inj h.1, h.2⟩
  · simp only [ha, hb, if_true, Bool.false_eq_true, if_false, List.cons_append, List.nil_append,
      List.cons.injEq] at h
    exact absurd h.1 (percent_ne_of_keep hk ha)
  · simp only [ha, hb, if_true, Bool.false_eq_true, if_false, List.cons_append, List.nil_append,
      List.cons.injEq] at h
    exact absurd h.1.symm (percent_ne_of_keep hk hb)
  · simp only [ha, hb, List.cons_append, List.nil_append, List.cons.injEq, true_and,
      Bool.false_eq_true, if_false] at h
    have hbyte : ∀ c : UInt8, c.toNat / 16 < 16 := fun c => by
      have := c.toNat_lt
      omega
    have hhi := hexDigit_inj (hbyte a) (hbyte b) h.1
    have hlo := hexDigit_inj (Nat.mod_lt _ (by decide)) (Nat.mod_lt _ (by decide)) h.2.1
    have hnat : a.toNat = b.toNat := by omega
    exact ⟨UInt8.toNat_inj.mp hnat, h.2.2⟩

theorem encodeByte_ne_nil (keep : UInt8 → Bool) (b : UInt8) : encodeByte keep b ≠ [] := by
  unfold encodeByte
  split <;> exact List.cons_ne_nil _ _

theorem encodeBytes_inj (hk : Sound keep) {as bs : List UInt8}
    (h : encodeBytes keep as = encodeBytes keep bs) : as = bs := by
  induction as generalizing bs with
  | nil =>
    cases bs with
    | nil => rfl
    | cons b bs =>
      have hnil : encodeByte keep b ++ encodeBytes keep bs = [] := h.symm
      exact absurd (List.append_eq_nil_iff.mp hnil).1 (encodeByte_ne_nil keep b)
  | cons a as ih =>
    cases bs with
    | nil =>
      have hnil : encodeByte keep a ++ encodeBytes keep as = [] := h
      exact absurd (List.append_eq_nil_iff.mp hnil).1 (encodeByte_ne_nil keep a)
    | cons b bs =>
      have hcons : encodeByte keep a ++ encodeBytes keep as
          = encodeByte keep b ++ encodeBytes keep bs := h
      obtain ⟨hab, hrest⟩ := encodeByte_append_inj hk hcons
      rw [hab, ih hrest]

theorem encode_inj (hk : Sound keep) {s t : String} (h : encode keep s = encode keep t) :
    s = t := by
  have hbytes := encodeBytes_inj hk h
  apply String.toByteArray_inj.mp
  exact ByteArray.ext (Array.toList_inj.mp hbytes)

/-- A character that is neither kept nor part of an escape does not occur in encoded text. -/
theorem not_mem_encode {c : Char} (hkeep : ∀ b, keep b = true → Char.ofNat b.toNat ≠ c)
    (hpercent : '%' ≠ c) (hhex : ∀ n : Fin 16, hexDigit n ≠ c) (s : String) :
    c ∉ encode keep s := by
  intro hmem
  obtain ⟨b, _, hb⟩ := List.mem_flatMap.mp hmem
  unfold encodeByte at hb
  have hlt := b.toNat_lt
  split at hb
  case isTrue hk =>
    rw [List.mem_singleton] at hb
    exact hkeep b hk hb.symm
  case isFalse =>
    simp only [List.mem_cons, List.not_mem_nil, or_false] at hb
    rcases hb with hb | hb | hb
    · exact hpercent hb.symm
    · exact hhex ⟨b.toNat / 16, by omega⟩ hb.symm
    · exact hhex ⟨b.toNat % 16, by omega⟩ hb.symm

theorem append_sep_inj {sep : Char} {k l v w : List Char} (hk : sep ∉ k) (hl : sep ∉ l)
    (h : k ++ sep :: v = l ++ sep :: w) : k = l ∧ v = w := by
  induction k generalizing l with
  | nil =>
    cases l with
    | nil => exact ⟨rfl, (List.cons.inj h).2⟩
    | cons c l => exact absurd ((List.cons.inj h).1 ▸ List.mem_cons_self) hl
  | cons c k ih =>
    cases l with
    | nil => exact absurd ((List.cons.inj h).1 ▸ List.mem_cons_self) hk
    | cons d l =>
      obtain ⟨hcd, hrest⟩ := List.cons.inj h
      rw [List.mem_cons, not_or] at hk hl
      obtain ⟨hkl, hvw⟩ := ih hk.2 hl.2 hrest
      exact ⟨by rw [hcd, hkl], hvw⟩

/-- A pair whose key has no `=` determines the key and the value. -/
theorem pair_inj (hk : Sound keep) {k l v w : String} (hkeq : '=' ∉ k.toList)
    (hleq : '=' ∉ l.toList) (h : pair keep k v = pair keep l w) : k = l ∧ v = w := by
  obtain ⟨hkl, hvw⟩ := append_sep_inj hkeq hleq h
  exact ⟨String.toList_inj.mp hkl, encode_inj hk hvw⟩

end Encoding

end QueryString
