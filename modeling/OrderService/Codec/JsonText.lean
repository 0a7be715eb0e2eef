import Mathlib.Data.List.Basic
import OrderService.Services.Refund

/-! `JSON.parse`, and what it reads back of a text that `JSON.stringify` wrote. -/
namespace OrderService

section Tokens

def jsonSpace (c : Char) : Bool :=
  c.toNat = 32 || c.toNat = 9 || c.toNat = 10 || c.toNat = 13

def skipSpace (cs : List Char) : List Char := cs.dropWhile jsonSpace

/-- The characters of a number: digits, `+`, `-`, `.`, `E` and `e`. -/
def numberChar (c : Char) : Bool :=
  c.isDigit || c.toNat = 43 || c.toNat = 45 || c.toNat = 46 || c.toNat = 69 || c.toNat = 101

def exponentPart : List Char → Bool
  | [] => true
  | e :: rest =>
    let digits := match rest with
      | sign :: more => if sign.toNat = 43 ∨ sign.toNat = 45 then more else rest
      | [] => []
    (e.toNat = 69 || e.toNat = 101) && !digits.isEmpty && digits.all Char.isDigit

def fractionPart : List Char → Bool
  | [] => true
  | c :: rest =>
    if c.toNat = 46 then
      (rest.head?.map Char.isDigit).getD false && exponentPart (rest.dropWhile Char.isDigit)
    else exponentPart (c :: rest)

def unsignedNumber : List Char → Bool
  | [] => false
  | c :: rest =>
    if c.toNat = 48 then fractionPart rest
    else c.isDigit && fractionPart (rest.dropWhile Char.isDigit)

/-- The grammar of a number in a JSON text. -/
def jsonNumber : List Char → Bool
  | [] => false
  | c :: rest => if c.toNat = 45 then unsignedNumber rest else unsignedNumber (c :: rest)

def readUnit : List Char → Option (Nat × List Char)
  | a :: b :: c :: d :: rest => do
    let a ← hexValue a
    let b ← hexValue b
    let c ← hexValue c
    let d ← hexValue d
    pure (a * 0x1000 + b * 0x100 + c * 0x10 + d, rest)
  | _ => none

/-- The second half of a surrogate pair. A lone surrogate is no character and is not read. -/
def readLow (high : Nat) : List Char → Option (Char × List Char)
  | a :: u :: rest => do
    let (low, rest) ← readUnit rest
    if a.toNat = 92 ∧ u.toNat = 117 ∧ 0xDC00 ≤ low ∧ low ≤ 0xDFFF then
      pure (Char.ofNat (0x10000 + (high - 0xD800) * 0x400 + (low - 0xDC00)), rest)
    else none
  | _ => none

/-- What follows a backslash. -/
def readEscape : List Char → Option (Char × List Char)
  | [] => none
  | c :: rest =>
    if c.toNat = 34 ∨ c.toNat = 92 ∨ c.toNat = 47 then some (c, rest)
    else if c.toNat = 98 then some (Char.ofNat 8, rest)
    else if c.toNat = 102 then some (Char.ofNat 12, rest)
    else if c.toNat = 110 then some (Char.ofNat 10, rest)
    else if c.toNat = 114 then some (Char.ofNat 13, rest)
    else if c.toNat = 116 then some (Char.ofNat 9, rest)
    else if c.toNat = 117 then do
      let (unit, rest) ← readUnit rest
      if unit < 0xD800 ∨ 0xDFFF < unit then pure (Char.ofNat unit, rest)
      else if unit < 0xDC00 then readLow unit rest
      else none
    else none

/-- The rest of a string, its opening quote read; `n` bounds the characters. -/
def readString : Nat → List Char → Option (List Char × List Char)
  | 0, _ => none
  | _, [] => none
  | n + 1, c :: rest =>
    if c.toNat = 34 then some ([], rest)
    else if c.toNat = 92 then do
      let (d, rest) ← readEscape rest
      let (cs, rest) ← readString n rest
      pure (d :: cs, rest)
    else if c.toNat < 32 then none
    else do
      let (cs, rest) ← readString n rest
      pure (c :: cs, rest)

/-- The rest must start with this character. -/
def expect (code : Nat) : List Char → Option (List Char)
  | [] => none
  | c :: rest => if c.toNat = code then some rest else none

end Tokens

section Objects

/-- A property name that is an index of an array. -/
def arrayIndex (name : String) : Option Nat :=
  let cs := name.toList
  let n := cs.foldl (fun n c => 10 * n + (c.toNat - 48)) 0
  if !cs.isEmpty && cs.all Char.isDigit && (cs.head?.map Char.toNat != some 48 || cs.length = 1)
    && n < 2 ^ 32 - 1 then some n else none

/-- The order of an object's own keys: indices first, in ascending order, then the names as they
were added. -/
def keyBefore (a b : String) : Bool :=
  match arrayIndex a, arrayIndex b with
  | some m, some n => m < n
  | none, some _ => false
  | _, none => true

/-- `object[name] = value`. -/
def assignField (fields : List (String × Json)) (field : String × Json) : List (String × Json) :=
  match fields with
  | [] => [field]
  | g :: rest =>
    if g.1 = field.1 then field :: rest
    else if keyBefore g.1 field.1 then g :: assignField rest field
    else field :: g :: rest

def ownFields (fields : List (String × Json)) : List (String × Json) := fields.foldl assignField []

mutual

/-- A value as scripts can build it: its numbers have the text of a number, and the keys of its
objects are distinct and in their order. -/
def Json.WellFormed : Json → Prop
  | .num t => t.toList.all numberChar = true ∧ jsonNumber t.toList = true
  | .arr items => Json.AllWellFormed items
  | .obj fields => (fields.map Prod.fst).Pairwise (fun a b => a ≠ b ∧ keyBefore a b = true) ∧
      Json.FieldsWellFormed fields
  | _ => True

def Json.AllWellFormed : List Json → Prop
  | [] => True
  | item :: rest => item.WellFormed ∧ Json.AllWellFormed rest

def Json.FieldsWellFormed : List (String × Json) → Prop
  | [] => True
  | field :: rest => field.2.WellFormed ∧ Json.FieldsWellFormed rest

end

end Objects

section Parser

def readLiteral (word : String) (value : Json) (cs : List Char) : Option (Json × List Char) :=
  if word.toList.isPrefixOf cs then some (value, cs.drop word.toList.length) else none

/-- A number is kept as its text. -/
def readNumber (cs : List Char) : Option (Json × List Char) :=
  let token := cs.takeWhile numberChar
  if jsonNumber token then some (.num (String.ofList token), cs.dropWhile numberChar) else none

mutual

/-- The value at the start of a text; `n` bounds its characters. -/
def readValue : Nat → List Char → Option (Json × List Char)
  | 0, _ => none
  | n + 1, cs =>
    match skipSpace cs with
    | [] => none
    | c :: rest =>
      if c.toNat = 34 then (readString (n + 1) rest).map fun r => (.str (String.ofList r.1), r.2)
      else if c.toNat = 91 then
        match expect 93 (skipSpace rest) with
        | some rest => some (.arr [], rest)
        | none => (readItems n rest).map fun r => (.arr r.1, r.2)
      else if c.toNat = 123 then
        match expect 125 (skipSpace rest) with
        | some rest => some (.obj [], rest)
        | none => (readFields n rest).map fun r => (.obj (ownFields r.1), r.2)
      else if c.toNat = 116 then readLiteral "true" (.bool true) (c :: rest)
      else if c.toNat = 102 then readLiteral "false" (.bool false) (c :: rest)
      else if c.toNat = 110 then readLiteral "null" .null (c :: rest)
      else readNumber (c :: rest)

/-- The elements of an array up to its closing bracket. -/
def readItems : Nat → List Char → Option (List Json × List Char)
  | 0, _ => none
  | n + 1, cs => do
    let (item, rest) ← readValue n cs
    match expect 93 (skipSpace rest) with
    | some rest => pure ([item], rest)
    | none =>
      let rest ← expect 44 (skipSpace rest)
      let (items, rest) ← readItems n rest
      pure (item :: items, rest)

/-- The members of an object up to its closing brace. -/
def readFields : Nat → List Char → Option (List (String × Json) × List Char)
  | 0, _ => none
  | n + 1, cs => do
    let rest ← expect 34 (skipSpace cs)
    let (name, rest) ← readString n rest
    let rest ← expect 58 (skipSpace rest)
    let (value, rest) ← readValue n rest
    match expect 125 (skipSpace rest) with
    | some rest => pure ([(String.ofList name, value)], rest)
    | none =>
      let rest ← expect 44 (skipSpace rest)
      let (fields, rest) ← readFields n rest
      pure ((String.ofList name, value) :: fields, rest)

end

/-- `JSON.parse(text)`; what is no JSON text throws. -/
def Json.parse (text : String) : Option Json :=
  match readValue (text.toList.length + 1) text.toList with
  | some (value, rest) => if (skipSpace rest).isEmpty then some value else none
  | none => none

end Parser

section Strings

theorem hexValue_digitChar : ∀ d < 16, hexValue (Nat.digitChar d) = some d := by decide

/-- A control character without a short escape is read back from its code. -/
theorem readEscape_control {c : Char} (hc : c.toNat < 32) (rest : List Char) :
    readEscape (Char.ofNat 117 :: Char.ofNat 48 :: Char.ofNat 48 :: Nat.digitChar (c.toNat / 16)
      :: Nat.digitChar (c.toNat % 16) :: rest) = some (c, rest) := by
  have hhigh : hexValue (Nat.digitChar (c.toNat / 16)) = some (c.toNat / 16) :=
    hexValue_digitChar _ (by omega)
  have hlow : hexValue (Nat.digitChar (c.toNat % 16)) = some (c.toNat % 16) :=
    hexValue_digitChar _ (Nat.mod_lt _ (by decide))
  have hzero : hexValue (Char.ofNat 48) = some 0 := by decide
  have hunit : readUnit (Char.ofNat 48 :: Char.ofNat 48 :: Nat.digitChar (c.toNat / 16)
      :: Nat.digitChar (c.toNat % 16) :: rest) = some (c.toNat, rest) := by
    have hsum : 0 * 0x1000 + 0 * 0x100 + c.toNat / 16 * 0x10 + c.toNat % 16 = c.toNat := by omega
    simp only [readUnit, hhigh, hlow, hzero, Option.bind_eq_bind, Option.bind_some, Option.pure_def,
      hsum]
  have hsmall : c.toNat < 0xD800 := by omega
  have hu : readEscape (Char.ofNat 117 :: Char.ofNat 48 :: Char.ofNat 48
      :: Nat.digitChar (c.toNat / 16) :: Nat.digitChar (c.toNat % 16) :: rest)
      = (readUnit (Char.ofNat 48 :: Char.ofNat 48 :: Nat.digitChar (c.toNat / 16)
        :: Nat.digitChar (c.toNat % 16) :: rest)).bind fun r =>
          if r.1 < 0xD800 ∨ 0xDFFF < r.1 then pure (Char.ofNat r.1, r.2)
          else if r.1 < 0xDC00 then readLow r.1 r.2
          else none := rfl
  rw [hu, hunit, Option.bind_some, if_pos (.inl hsmall), Char.ofNat_toNat, Option.pure_def]

/-- One character of a string, however `JSON.stringify` shows it. -/
theorem readString_char (c : Char) (n : Nat) (rest : List Char) :
    readString (n + 1) ((jsonChar c).toList ++ rest)
      = (readString n rest).map fun r => (c :: r.1, r.2) := by
  have hescape : ∀ shown, readEscape (shown ++ rest) = some (c, rest) →
      readString (n + 1) (Char.ofNat 92 :: (shown ++ rest))
        = (readString n rest).map fun r => (c :: r.1, r.2) := by
    intro shown hshown
    have h34 : ¬(Char.ofNat 92).toNat = 34 := by decide
    have h92 : (Char.ofNat 92).toNat = 92 := by decide
    rw [readString, if_neg h34, if_pos h92, hshown]
    simp only [Option.bind_eq_bind, Option.bind_some]
    cases readString n rest with
    | none => rfl
    | some r => rfl
  have hself : c = Char.ofNat c.toNat := (Char.ofNat_toNat c).symm
  unfold jsonChar
  split_ifs with h34 h92 h8 h9 h10 h12 h13 h32
  · rw [h34] at hself
    subst hself
    exact hescape [Char.ofNat 34] rfl
  · rw [h92] at hself
    subst hself
    exact hescape [Char.ofNat 92] rfl
  · rw [h8] at hself
    subst hself
    exact hescape [Char.ofNat 98] rfl
  · rw [h9] at hself
    subst hself
    exact hescape [Char.ofNat 116] rfl
  · rw [h10] at hself
    subst hself
    exact hescape [Char.ofNat 110] rfl
  · rw [h12] at hself
    subst hself
    exact hescape [Char.ofNat 102] rfl
  · rw [h13] at hself
    subst hself
    exact hescape [Char.ofNat 114] rfl
  · have hshown : ("\\u00" ++ String.ofList [Nat.digitChar (c.toNat / 16),
        Nat.digitChar (c.toNat % 16)]).toList
        = Char.ofNat 92 :: [Char.ofNat 117, Char.ofNat 48, Char.ofNat 48,
          Nat.digitChar (c.toNat / 16), Nat.digitChar (c.toNat % 16)] := by
      rw [String.toList_append, String.toList_ofList, String.toList_ofList]
      rfl
    rw [hshown]
    exact hescape _ (readEscape_control h32 rest)
  · have hplain : c.toString.toList = [c] := by simp [Char.toString]
    rw [hplain, List.cons_append, List.nil_append, readString, if_neg h34, if_neg h92, if_neg h32]
    cases readString n rest with
    | none => rfl
    | some r => rfl

theorem readString_chars (cs : List Char) {n : Nat} (hn : cs.length < n) (rest : List Char) :
    readString n (cs.flatMap (fun c => (jsonChar c).toList) ++ Char.ofNat 34 :: rest)
      = some (cs, rest) := by
  induction cs generalizing n with
  | nil =>
    obtain ⟨m, rfl⟩ : ∃ m, n = m + 1 := ⟨n - 1, by simp at hn; omega⟩
    rfl
  | cons c cs ih =>
    obtain ⟨m, rfl⟩ : ∃ m, n = m + 1 := ⟨n - 1, by omega⟩
    rw [List.flatMap_cons, List.append_assoc, readString_char, ih (by simp at hn; omega)]
    rfl

theorem toList_jsonString (s : String) :
    (jsonString s).toList
      = Char.ofNat 34 :: (s.toList.flatMap (fun c => (jsonChar c).toList) ++ [Char.ofNat 34]) := by
  rw [jsonString, String.toList_append, String.toList_append, String.toList_join,
    List.flatMap_map]
  rfl

theorem jsonChar_ne_nil (c : Char) : 1 ≤ (jsonChar c).toList.length := by
  unfold jsonChar
  split_ifs <;> simp [Char.toString]

theorem length_jsonString (s : String) :
    s.toList.length + 2 ≤ (jsonString s).toList.length := by
  have hchars : ∀ cs : List Char,
      cs.length ≤ (cs.flatMap (fun c => (jsonChar c).toList)).length := by
    intro cs
    induction cs with
    | nil => exact le_rfl
    | cons c cs ih =>
      have hc := jsonChar_ne_nil c
      rw [List.flatMap_cons, List.length_append, List.length_cons]
      omega
  have := hchars s.toList
  rw [toList_jsonString, List.length_cons, List.length_append, List.length_singleton]
  omega

end Strings

section Fields

/-- A field behind all others is added at the end. -/
theorem assignField_append {fields : List (String × Json)} {field : String × Json}
    (h : ∀ g ∈ fields, g.1 ≠ field.1 ∧ keyBefore g.1 field.1 = true) :
    assignField fields field = fields ++ [field] := by
  induction fields with
  | nil => rfl
  | cons g fields ih =>
    obtain ⟨hne, hbefore⟩ := h g List.mem_cons_self
    rw [assignField, if_neg hne, if_pos hbefore,
      ih fun g' hg' => h g' (List.mem_cons_of_mem g hg'), List.cons_append]

/-- Fields that stand in the order of an object's keys keep it. -/
theorem ownFields_of_pairwise {fields : List (String × Json)}
    (h : (fields.map Prod.fst).Pairwise fun a b => a ≠ b ∧ keyBefore a b = true) :
    ownFields fields = fields := by
  suffices hfold : ∀ before, ((before ++ fields).map Prod.fst).Pairwise
      (fun a b => a ≠ b ∧ keyBefore a b = true) →
      fields.foldl assignField before = before ++ fields from hfold [] h
  induction fields with
  | nil => exact fun before _ => (List.append_nil before).symm
  | cons field fields ih =>
    intro before hbefore
    rw [List.map_cons] at h
    have hlast : ∀ g ∈ before, g.1 ≠ field.1 ∧ keyBefore g.1 field.1 = true := by
      intro g hg
      rw [List.map_append, List.pairwise_append] at hbefore
      exact hbefore.2.2 g.1 (List.mem_map_of_mem hg) field.1 (by simp)
    have hsplit : before ++ [field] ++ fields = before ++ field :: fields := by simp
    rw [List.foldl_cons, assignField_append hlast, ih h.of_cons _ (by rw [hsplit]; exact hbefore),
      hsplit]

end Fields

section RoundTrip

/-- A number that stands before this text ends there. -/
def EndsNumber (rest : List Char) : Prop := ∀ c ∈ rest.head?, numberChar c = false

theorem endsNumber_cons {c : Char} (h : numberChar c = false) {rest : List Char} :
    EndsNumber (c :: rest) := by
  intro d hd
  simp only [List.head?_cons, Option.mem_def, Option.some.injEq] at hd
  rw [← hd]
  exact h

theorem skipSpace_cons {c : Char} (h : jsonSpace c = false) (rest : List Char) :
    skipSpace (c :: rest) = c :: rest := by
  rw [skipSpace, List.dropWhile_cons_of_neg (by simp [h])]

theorem expect_eq {c : Char} {code : Nat} (h : c.toNat = code) (rest : List Char) :
    expect code (c :: rest) = some rest := if_pos h

theorem readNumber_text {t : String} (hchars : t.toList.all numberChar = true)
    (hnumber : jsonNumber t.toList = true) {rest : List Char} (hrest : EndsNumber rest) :
    readNumber (t.toList ++ rest) = some (.num t, rest) := by
  have hstop : rest.takeWhile numberChar = [] ∧ rest.dropWhile numberChar = rest := by
    cases rest with
    | nil => exact ⟨rfl, rfl⟩
    | cons c rest =>
      have hc : numberChar c = false := hrest c rfl
      simp [hc]
  have hall : ∀ c ∈ t.toList, numberChar c = true := List.all_eq_true.mp hchars
  have htake : (t.toList ++ rest).takeWhile numberChar = t.toList := by
    rw [List.takeWhile_append_of_pos hall, hstop.1, List.append_nil]
  have hdrop : (t.toList ++ rest).dropWhile numberChar = rest := by
    rw [List.dropWhile_append_of_pos hall, hstop.2]
  unfold readNumber
  simp only [htake, hdrop, hnumber, if_true, String.ofList_toList]

/-- The first character of a number is none of those that start another value. -/
theorem numberChar_ne {c : Char} (h : numberChar c = true) :
    jsonSpace c = false ∧ c.toNat ≠ 34 ∧ c.toNat ≠ 91 ∧ c.toNat ≠ 123 ∧ c.toNat ≠ 116 ∧
      c.toNat ≠ 102 ∧ c.toNat ≠ 110 := by
  have hdigit : c.isDigit = true → 48 ≤ c.toNat ∧ c.toNat ≤ 57 := by
    intro hd
    simp only [Char.isDigit, Bool.and_eq_true, decide_eq_true_eq] at hd
    exact hd
  have hcases : (48 ≤ c.toNat ∧ c.toNat ≤ 57) ∨ c.toNat = 43 ∨ c.toNat = 45 ∨ c.toNat = 46 ∨
      c.toNat = 69 ∨ c.toNat = 101 := by
    simp only [numberChar, Bool.or_eq_true, decide_eq_true_eq] at h
    tauto
  refine ⟨?_, by omega, by omega, by omega, by omega, by omega, by omega⟩
  simp only [jsonSpace, Bool.or_eq_false_iff, decide_eq_false_iff_not]
  omega

theorem stringify_arr (items : List Json) :
    (Json.arr items).stringify.toList
      = Char.ofNat 91 :: ((",".intercalate (Json.stringifyItems items)).toList ++ [Char.ofNat 93]) := by
  rw [Json.stringify, String.toList_append, String.toList_append]
  rfl

theorem stringify_obj (fields : List (String × Json)) :
    (Json.obj fields).stringify.toList
      = Char.ofNat 123 ::
        ((",".intercalate (Json.stringifyFields fields)).toList ++ [Char.ofNat 125]) := by
  rw [Json.stringify, String.toList_append, String.toList_append]
  rfl

/-- The text of a value starts with a character that is neither a space nor a closing bracket. -/
theorem stringify_head {j : Json} (hj : j.WellFormed) :
    ∃ c cs, j.stringify.toList = c :: cs ∧ jsonSpace c = false ∧ c.toNat ≠ 93 := by
  cases j with
  | null => exact ⟨_, _, rfl, by decide, by decide⟩
  | bool b => cases b <;> exact ⟨_, _, rfl, by decide, by decide⟩
  | num t =>
    obtain ⟨hchars, hnumber⟩ := hj
    rw [Json.stringify]
    cases ht : t.toList with
    | nil =>
      rw [ht] at hnumber
      cases hnumber
    | cons c cs =>
      rw [ht, List.all_cons, Bool.and_eq_true] at hchars
      refine ⟨c, cs, rfl, (numberChar_ne hchars.1).1, fun h93 => ?_⟩
      have hc : c = Char.ofNat 93 := by rw [← h93, Char.ofNat_toNat]
      exact absurd hchars.1 (by rw [hc]; decide)
  | str s => exact ⟨_, _, by rw [Json.stringify, toList_jsonString], by decide, by decide⟩
  | arr items => exact ⟨_, _, stringify_arr items, by decide, by decide⟩
  | obj fields => exact ⟨_, _, stringify_obj fields, by decide, by decide⟩

theorem expect_none {c : Char} {code : Nat} (h : c.toNat ≠ code) (rest : List Char) :
    expect code (c :: rest) = none := if_neg h

/-- What stands between the first part of a joined text and the others. -/
def separated : List String → List Char
  | [] => []
  | part :: parts => Char.ofNat 44 :: (",".intercalate (part :: parts)).toList

theorem toList_intercalate_cons (part : String) (parts : List String) :
    (",".intercalate (part :: parts)).toList = part.toList ++ separated parts := by
  cases parts with
  | nil => rw [String.intercalate_singleton, separated, List.append_nil]
  | cons next parts =>
    rw [String.intercalate_cons_cons, String.toList_append, String.toList_append,
      List.append_assoc]
    rfl

theorem toList_stringifyItems (item : Json) (items : List Json) :
    (",".intercalate (Json.stringifyItems (item :: items))).toList
      = item.stringify.toList ++ separated (Json.stringifyItems items) := by
  rw [Json.stringifyItems, toList_intercalate_cons]

theorem toList_stringifyFields (name : String) (value : Json) (fields : List (String × Json)) :
    (",".intercalate (Json.stringifyFields ((name, value) :: fields))).toList
      = (jsonString name).toList ++ Char.ofNat 58 :: (value.stringify.toList
        ++ separated (Json.stringifyFields fields)) := by
  rw [Json.stringifyFields, toList_intercalate_cons, String.toList_append, String.toList_append]
  simp only [List.append_assoc]
  rfl

/-- The value is read back from what `JSON.stringify` wrote of it, whatever stands behind. -/
def Reads (j : Json) : Prop :=
  ∀ (n : Nat), j.stringify.toList.length ≤ n → ∀ (rest : List Char), EndsNumber rest →
    readValue n (j.stringify.toList ++ rest) = some (j, rest)

theorem reads_null : Reads .null := by
  intro n hn rest _
  obtain ⟨m, rfl⟩ : ∃ m, n = m + 1 := ⟨n - 1, by simp [Json.stringify] at hn; omega⟩
  rfl

theorem reads_bool (b : Bool) : Reads (.bool b) := by
  intro n hn rest _
  cases b with
  | true =>
    obtain ⟨m, rfl⟩ : ∃ m, n = m + 1 := ⟨n - 1, by simp [Json.stringify] at hn; omega⟩
    rfl
  | false =>
    obtain ⟨m, rfl⟩ : ∃ m, n = m + 1 := ⟨n - 1, by simp [Json.stringify] at hn; omega⟩
    rfl

theorem reads_num {t : String} (hj : (Json.num t).WellFormed) : Reads (.num t) := by
  intro n hn rest hrest
  obtain ⟨hchars, hnumber⟩ := hj
  have hread := readNumber_text hchars hnumber hrest
  rw [Json.stringify] at hn ⊢
  cases ht : t.toList with
  | nil =>
    rw [ht] at hnumber
    cases hnumber
  | cons c cs =>
    rw [ht] at hn hchars hread
    obtain ⟨m, rfl⟩ : ∃ m, n = m + 1 := ⟨n - 1, by simp at hn; omega⟩
    rw [List.all_cons, Bool.and_eq_true] at hchars
    obtain ⟨hspace, h34, h91, h123, h116, h102, h110⟩ := numberChar_ne hchars.1
    rw [List.cons_append] at hread ⊢
    rw [readValue, skipSpace_cons hspace]
    simp only [h34, h91, h123, h116, h102, h110, if_false]
    exact hread

theorem reads_str (s : String) : Reads (.str s) := by
  intro n hn rest _
  have hlength := length_jsonString s
  rw [Json.stringify] at hn ⊢
  obtain ⟨m, rfl⟩ : ∃ m, n = m + 1 := ⟨n - 1, by omega⟩
  have hquote : jsonSpace (Char.ofNat 34) = false := by decide
  have hchars := readString_chars s.toList (n := m + 1) (by omega) rest
  rw [toList_jsonString, List.cons_append, List.append_assoc, readValue, skipSpace_cons hquote]
  simp only [List.cons_append, List.nil_append, hchars]
  rw [if_pos (by decide), Option.map_some, String.ofList_toList]

/-- Elements that are read back one by one are read back as an array. -/
theorem readItems_stringify (item : Json) (items : List Json) (hitem : Reads item)
    (hitems : ∀ next ∈ items, Reads next) {n : Nat}
    (hn : (",".intercalate (Json.stringifyItems (item :: items))).toList.length + 1 ≤ n)
    (rest : List Char) :
    readItems n ((",".intercalate (Json.stringifyItems (item :: items))).toList
      ++ Char.ofNat 93 :: rest) = some (item :: items, rest) := by
  have hclose : jsonSpace (Char.ofNat 93) = false := by decide
  have hcomma : jsonSpace (Char.ofNat 44) = false := by decide
  induction items generalizing item n with
  | nil =>
    obtain ⟨m, rfl⟩ : ∃ m, n = m + 1 := ⟨n - 1, by omega⟩
    have hlast : separated (Json.stringifyItems []) = [] := rfl
    rw [toList_stringifyItems, hlast, List.append_nil] at hn ⊢
    rw [readItems, hitem _ (by omega) _ (endsNumber_cons (by decide))]
    simp only [Option.bind_eq_bind, Option.bind_some]
    rw [skipSpace_cons hclose, expect_eq (by decide)]
    rfl
  | cons next items ih =>
    obtain ⟨m, rfl⟩ : ∃ m, n = m + 1 := ⟨n - 1, by omega⟩
    have hnext : separated (Json.stringifyItems (next :: items))
        = Char.ofNat 44 :: (",".intercalate (Json.stringifyItems (next :: items))).toList := rfl
    rw [toList_stringifyItems, hnext] at hn ⊢
    rw [List.length_append, List.length_cons] at hn
    have hrest := ih next (hitems next List.mem_cons_self)
      (fun other hother => hitems other (List.mem_cons_of_mem next hother)) (n := m) (by omega)
    rw [List.append_assoc, List.cons_append, readItems,
      hitem _ (by omega) _ (endsNumber_cons (by decide))]
    simp only [Option.bind_eq_bind, Option.bind_some]
    rw [skipSpace_cons hcomma, expect_none (by decide), expect_eq (by decide)]
    simp only [Option.bind_some]
    rw [hrest]
    rfl

theorem reads_arr {items : List Json} (hwell : Json.AllWellFormed items)
    (hitems : ∀ item ∈ items, Reads item) : Reads (.arr items) := by
  intro n hn rest _
  rw [stringify_arr, List.length_cons, List.length_append, List.length_singleton] at hn
  obtain ⟨m, rfl⟩ : ∃ m, n = m + 1 := ⟨n - 1, by omega⟩
  have hopen : jsonSpace (Char.ofNat 91) = false := by decide
  rw [stringify_arr, List.cons_append, List.append_assoc, readValue, skipSpace_cons hopen]
  dsimp only
  rw [if_neg (by decide), if_pos (by decide)]
  cases items with
  | nil => rfl
  | cons item items =>
    -- The first element does not start with a bracket that would close the array.
    obtain ⟨c, cs, hcs, hspace, h93⟩ := stringify_head hwell.1
    have hfirst : expect 93 (skipSpace ((",".intercalate
        (Json.stringifyItems (item :: items))).toList ++ ([Char.ofNat 93] ++ rest))) = none := by
      rw [toList_stringifyItems, hcs, List.cons_append, List.cons_append, skipSpace_cons hspace,
        expect_none h93]
    have hread := readItems_stringify item items (hitems item List.mem_cons_self)
      (fun next hnext => hitems next (List.mem_cons_of_mem item hnext)) (n := m) (by omega) rest
    rw [hfirst]
    dsimp only
    rw [List.singleton_append, hread, Option.map_some]

/-- The same for the members of an object. -/
theorem readFields_stringify (name : String) (value : Json) (fields : List (String × Json))
    (hvalue : Reads value) (hfields : ∀ field ∈ fields, Reads field.2) {n : Nat}
    (hn : (",".intercalate (Json.stringifyFields ((name, value) :: fields))).toList.length + 1 ≤ n)
    (rest : List Char) :
    readFields n ((",".intercalate (Json.stringifyFields ((name, value) :: fields))).toList
      ++ Char.ofNat 125 :: rest) = some ((name, value) :: fields, rest) := by
  have hquote : jsonSpace (Char.ofNat 34) = false := by decide
  have hcolon : jsonSpace (Char.ofNat 58) = false := by decide
  have hclose : jsonSpace (Char.ofNat 125) = false := by decide
  have hcomma : jsonSpace (Char.ofNat 44) = false := by decide
  induction fields generalizing name value n with
  | nil =>
    obtain ⟨m, rfl⟩ : ∃ m, n = m + 1 := ⟨n - 1, by omega⟩
    have hname := length_jsonString name
    have hlast : separated (Json.stringifyFields []) = [] := rfl
    rw [toList_stringifyFields, hlast, List.append_nil] at hn ⊢
    rw [List.length_append, List.length_cons] at hn
    rw [toList_jsonString]
    simp only [List.cons_append, List.append_assoc, List.nil_append]
    rw [readFields, skipSpace_cons hquote, expect_eq (by decide)]
    simp only [Option.bind_eq_bind, Option.bind_some]
    rw [readString_chars name.toList (by omega)]
    simp only [Option.bind_some]
    rw [skipSpace_cons hcolon, expect_eq (by decide)]
    simp only [Option.bind_some]
    rw [hvalue _ (by omega) _ (endsNumber_cons (by decide))]
    simp only [Option.bind_some]
    rw [skipSpace_cons hclose, expect_eq (by decide), String.ofList_toList]
    rfl
  | cons field fields ih =>
    obtain ⟨m, rfl⟩ : ∃ m, n = m + 1 := ⟨n - 1, by omega⟩
    obtain ⟨next, other⟩ := field
    have hname := length_jsonString name
    have hnext : separated (Json.stringifyFields ((next, other) :: fields))
        = Char.ofNat 44 ::
          (",".intercalate (Json.stringifyFields ((next, other) :: fields))).toList := rfl
    rw [toList_stringifyFields, hnext] at hn ⊢
    rw [List.length_append, List.length_cons, List.length_append, List.length_cons] at hn
    have hrest := ih next other (hfields _ List.mem_cons_self)
      (fun field hfield => hfields field (List.mem_cons_of_mem _ hfield)) (n := m) (by omega)
    rw [toList_jsonString]
    simp only [List.cons_append, List.append_assoc, List.nil_append]
    rw [readFields, skipSpace_cons hquote, expect_eq (by decide)]
    simp only [Option.bind_eq_bind, Option.bind_some]
    rw [readString_chars name.toList (by omega)]
    simp only [Option.bind_some]
    rw [skipSpace_cons hcolon, expect_eq (by decide)]
    simp only [Option.bind_some]
    rw [hvalue _ (by omega) _ (endsNumber_cons (by decide))]
    simp only [Option.bind_some]
    rw [skipSpace_cons hcomma, expect_none (by decide), expect_eq (by decide)]
    simp only [Option.bind_some]
    rw [hrest, String.ofList_toList]
    rfl

theorem reads_obj {fields : List (String × Json)} (hwell : (Json.obj fields).WellFormed)
    (hfields : ∀ field ∈ fields, Reads field.2) : Reads (.obj fields) := by
  intro n hn rest _
  rw [stringify_obj, List.length_cons, List.length_append, List.length_singleton] at hn
  obtain ⟨m, rfl⟩ : ∃ m, n = m + 1 := ⟨n - 1, by omega⟩
  have hopen : jsonSpace (Char.ofNat 123) = false := by decide
  rw [stringify_obj, List.cons_append, List.append_assoc, readValue, skipSpace_cons hopen]
  dsimp only
  rw [if_neg (by decide), if_neg (by decide), if_pos (by decide)]
  cases fields with
  | nil => rfl
  | cons field fields =>
    obtain ⟨name, value⟩ := field
    have hquote : jsonSpace (Char.ofNat 34) = false := by decide
    have hfirst : expect 125 (skipSpace ((",".intercalate
        (Json.stringifyFields ((name, value) :: fields))).toList ++ ([Char.ofNat 125] ++ rest)))
        = none := by
      rw [toList_stringifyFields, toList_jsonString]
      simp only [List.cons_append]
      rw [skipSpace_cons hquote, expect_none (by decide)]
    have hread := readFields_stringify name value fields (hfields _ List.mem_cons_self)
      (fun field hfield => hfields field (List.mem_cons_of_mem _ hfield)) (n := m) (by omega) rest
    rw [hfirst]
    dsimp only
    rw [List.singleton_append, hread, Option.map_some, ownFields_of_pairwise hwell.1]

mutual

theorem reads : (j : Json) → j.WellFormed → Reads j
  | .null, _ => reads_null
  | .bool b, _ => reads_bool b
  | .num _, hj => reads_num hj
  | .str s, _ => reads_str s
  | .arr items, hj => reads_arr hj (readsAll items hj)
  | .obj fields, hj => reads_obj hj (readsFields fields hj.2)

theorem readsAll : (items : List Json) → Json.AllWellFormed items → ∀ item ∈ items, Reads item
  | [], _, _, hmem => by cases hmem
  | first :: rest, hwell, item, hmem =>
    have hfirst : Reads first := reads first hwell.1
    have hrest := readsAll rest hwell.2
    (List.mem_cons.mp hmem).elim (fun h => h ▸ hfirst) (hrest item)

theorem readsFields : (fields : List (String × Json)) → Json.FieldsWellFormed fields →
    ∀ field ∈ fields, Reads field.2
  | [], _, _, hmem => by cases hmem
  | (_, value) :: rest, hwell, field, hmem =>
    have hvalue : Reads value := reads value hwell.1
    have hrest := readsFields rest hwell.2
    (List.mem_cons.mp hmem).elim (fun h => h ▸ hvalue) (hrest field)

end

/-- `JSON.parse(JSON.stringify(value))` is the value. -/
theorem parse_stringify {j : Json} (hj : j.WellFormed) : Json.parse j.stringify = some j := by
  have hread := reads j hj _ (Nat.le_succ _) [] fun _ h => by cases h
  rw [List.append_nil] at hread
  rw [Json.parse, hread]
  rfl

theorem stringify_ne_empty {j : Json} (hj : j.WellFormed) : j.stringify ≠ "" := by
  intro hempty
  obtain ⟨c, cs, hcs, _⟩ := stringify_head hj
  rw [hempty] at hcs
  cases hcs

end RoundTrip

end OrderService
