import Mathlib.Data.List.Induction

/-! A record that is kept by replaying changes of its fields, and copies of it that have seen some
of the changes only. -/
namespace LastWrite

/-- What a change does to the fields of a record: it leaves a field alone, or gives it a value of
its own. -/
structure Fields (C S F V : Type) where
  apply : C → S → S
  field : S → F → V
  writes : C → F → Prop
  keeps : ∀ {c φ} s, ¬writes c φ → field (apply c s) φ = field s φ
  sets : ∀ {c φ} s s', writes c φ → field (apply c s) φ = field (apply c s') φ

variable {C S F V : Type} (K : Fields C S F V)

def Fields.replay (log : List C) (s : S) : S := log.foldl (fun s c => K.apply c s) s

/-- Change `n` is the last one of the field. -/
def Fields.Latest (log : List C) (φ : F) (n : Nat) : Prop :=
  ∃ c, log[n]? = some c ∧ K.writes c φ ∧
    ∀ m c', log[m]? = some c' → K.writes c' φ → m ≤ n

/-- A copy that is behind in a field only where the last change of the field is not among those
that `seen` counts. -/
def Fields.UpToDate (log : List C) (base : S) (seen : Nat → Prop) (s : S) : Prop :=
  ∀ φ, (∃ n, K.Latest log φ n ∧ ¬seen n) ∨ K.field s φ = K.field (K.replay log base) φ

variable {K} {log : List C} {base s : S} {seen early : Nat → Prop} {φ : F} {n : Nat} {c : C}

theorem Fields.replay_concat : K.replay (log ++ [c]) s = K.apply c (K.replay log s) := by
  unfold Fields.replay
  rw [List.foldl_append]
  rfl

theorem getElem?_concat_lt {x : C} (h : (log ++ [c])[n]? = some x) (hn : n ≠ log.length) :
    log[n]? = some x := by
  have hlt : n < log.length := by
    have hbound : n < (log ++ [c]).length := (List.getElem?_eq_some_iff.mp h).1
    rw [List.length_append, List.length_singleton] at hbound
    omega
  rwa [List.getElem?_append_left hlt] at h

theorem lt_of_getElem? (h : log[n]? = some c) : n < log.length :=
  (List.getElem?_eq_some_iff.mp h).1

/-- A further change of the field is the last one. -/
theorem Fields.latest_concat (h : K.writes c φ) : K.Latest (log ++ [c]) φ log.length := by
  refine ⟨c, List.getElem?_concat_length, h, fun m c' hm _ => ?_⟩
  have hbound := lt_of_getElem? hm
  rw [List.length_append, List.length_singleton] at hbound
  omega

theorem Fields.Latest.concat_other (h : K.Latest log φ n) (hc : ¬K.writes c φ) :
    K.Latest (log ++ [c]) φ n := by
  obtain ⟨c₀, hget, hwrites, hlast⟩ := h
  refine ⟨c₀, ?_, hwrites, fun m c' hm hwrites' => ?_⟩
  · rwa [List.getElem?_append_left (lt_of_getElem? hget)]
  · by_cases hend : m = log.length
    · subst hend
      rw [List.getElem?_concat_length] at hm
      cases hm
      exact absurd hwrites' hc
    · exact hlast m c' (getElem?_concat_lt hm hend) hwrites'

theorem Fields.exists_latest (hget : log[n]? = some c) (hwrites : K.writes c φ) :
    ∃ m, n ≤ m ∧ K.Latest log φ m := by
  induction log using List.reverseRecOn with
  | nil => cases hget
  | append_singleton log c₀ ih =>
    by_cases hc₀ : K.writes c₀ φ
    · have hbound := lt_of_getElem? hget
      rw [List.length_append, List.length_singleton] at hbound
      exact ⟨log.length, by omega, latest_concat hc₀⟩
    · have hinside : n ≠ log.length := by
        intro hend
        rw [hend, List.getElem?_concat_length] at hget
        cases hget
        exact hc₀ hwrites
      obtain ⟨m, hle, hlatest⟩ := ih (getElem?_concat_lt hget hinside)
      exact ⟨m, hle, hlatest.concat_other hc₀⟩

/-- After the replay the field is what its last change made of it. -/
theorem Fields.Latest.field_replay (h : K.Latest log φ n) (hget : log[n]? = some c) (s base : S) :
    K.field (K.apply c s) φ = K.field (K.replay log base) φ := by
  induction log using List.reverseRecOn with
  | nil => cases hget
  | append_singleton log c₀ ih =>
    obtain ⟨c₁, hget₁, hwrites, hlast⟩ := h
    have hsame : c₁ = c := Option.some.inj (hget₁.symm.trans hget)
    subst hsame
    rw [replay_concat]
    by_cases hend : n = log.length
    · subst hend
      rw [List.getElem?_concat_length] at hget
      cases hget
      exact K.sets _ _ hwrites
    · have hlt : n < log.length := lt_of_getElem? (getElem?_concat_lt hget hend)
      have hkept : ¬K.writes c₀ φ := by
        intro hwrites₀
        have hle := hlast log.length c₀ List.getElem?_concat_length hwrites₀
        omega
      rw [K.keeps _ hkept]
      apply ih ⟨c₁, getElem?_concat_lt hget hend, hwrites, fun m c' hm => ?_⟩
        (getElem?_concat_lt hget hend)
      apply hlast m c'
      rwa [List.getElem?_append_left (lt_of_getElem? hm)]

theorem Fields.upToDate_replay : K.UpToDate log base seen (K.replay log base) := fun _ => .inr rfl

/-- New changes do not put a copy out of date: they are yet to be seen. -/
theorem Fields.UpToDate.concat (h : K.UpToDate log base seen s)
    (hseen : ∀ n, seen n → n < log.length) : K.UpToDate (log ++ [c]) base seen s := by
  intro φ
  by_cases hc : K.writes c φ
  · have hunseen : ¬seen log.length := fun hlength => Nat.lt_irrefl _ (hseen _ hlength)
    exact .inl ⟨log.length, latest_concat hc, hunseen⟩
  · rcases h φ with hbehind | hsame
    · obtain ⟨n, hlatest, hunseen⟩ := hbehind
      exact .inl ⟨n, hlatest.concat_other hc, hunseen⟩
    · right
      rw [replay_concat, K.keeps _ hc]
      exact hsame

theorem Fields.UpToDate.grow (h : K.UpToDate log base seen s)
    (hseen : ∀ n, seen n → n < log.length) (more : List C) :
    K.UpToDate (log ++ more) base seen s := by
  induction more using List.reverseRecOn with
  | nil => rwa [List.append_nil]
  | append_singleton more c ih =>
    rw [← List.append_assoc]
    apply ih.concat
    intro n hn
    rw [List.length_append]
    exact Nat.lt_add_right _ (hseen n hn)

theorem Fields.UpToDate.of_fields {s' : S} (h : K.UpToDate log base seen s)
    (hs : ∀ φ, K.field s φ = K.field s' φ) : K.UpToDate log base seen s' := fun φ =>
  (h φ).imp_right fun hsame => (hs φ).symm.trans hsame

/-- Of what has been seen only the changes of the record count. -/
theorem Fields.UpToDate.of_seen (h : K.UpToDate log base early s)
    (hseen : ∀ n c φ, log[n]? = some c → K.writes c φ → seen n → early n) :
    K.UpToDate log base seen s := by
  intro φ
  rcases h φ with hbehind | hsame
  · obtain ⟨n, hlatest, hunseen⟩ := hbehind
    obtain ⟨c, hget, hwrites, -⟩ := id hlatest
    exact .inl ⟨n, hlatest, fun hn => hunseen (hseen n c φ hget hwrites hn)⟩
  · exact .inr hsame

/-- Change `n` is made on a copy that has seen `early`: as long as no later change of its fields has
been seen, and of other fields only changes that the copy has seen, the copy is up to date. -/
theorem Fields.UpToDate.apply (h : K.UpToDate log base early s) (hget : log[n]? = some c)
    (hlater : ∀ m c' φ, log[m]? = some c' → seen m → n < m → K.writes c φ → ¬K.writes c' φ)
    (hothers : ∀ m c' φ, log[m]? = some c' → seen m → ¬early m → K.writes c' φ → K.writes c φ) :
    K.UpToDate log base (fun m => seen m ∨ m = n) (K.apply c s) := by
  intro φ
  by_cases hc : K.writes c φ
  · obtain ⟨m, hle, hlatest⟩ := exists_latest hget hc
    by_cases hend : m = n
    · rw [hend] at hlatest
      exact .inr (hlatest.field_replay hget s base)
    · -- A later change of the field is still to be seen.
      obtain ⟨c', hget', hwrites, -⟩ := id hlatest
      refine .inl ⟨m, hlatest, fun hm => ?_⟩
      rcases hm with hm | hm
      · exact hlater m c' φ hget' hm (by omega) hc hwrites
      · exact hend hm
  · rw [K.keeps _ hc]
    rcases h φ with hbehind | hsame
    · obtain ⟨m, hlatest, hunseen⟩ := hbehind
      obtain ⟨c', hget', hwrites, -⟩ := id hlatest
      refine .inl ⟨m, hlatest, fun hm => ?_⟩
      rcases hm with hm | hm
      · exact hc (hothers m c' φ hget' hm hunseen hwrites)
      · rw [hm, hget] at hget'
        cases hget'
        exact hc hwrites
    · exact .inr hsame

/-- Nothing is left to be seen. -/
theorem Fields.UpToDate.field_eq (h : K.UpToDate log base seen s)
    (hall : ∀ n c φ, log[n]? = some c → K.writes c φ → seen n) (φ : F) :
    K.field s φ = K.field (K.replay log base) φ := by
  rcases h φ with hbehind | hsame
  · obtain ⟨n, ⟨c, hget, hwrites, -⟩, hunseen⟩ := hbehind
    exact absurd (hall n c φ hget hwrites) hunseen
  · exact hsame

end LastWrite
