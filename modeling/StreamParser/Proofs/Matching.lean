import StreamParser.Regex.Reader

/-!
# What a tree matches

`Node.Matches` says what a tree matches, from one place of a text to another, by the form of the tree
alone. The search goes backwards, over sets of places that it marks as it finds them, and bounds the
rounds of a repetition by what can still be new; it finds exactly the places from which the tree
matches (`Node.backward_starts`). The way forwards then taken ends at one of the places it was to reach
(`Node.arrives_follow`).
-/

namespace StreamParser.Regex

/-! ### Places marked and places reached -/

theorem testBit_insert (seen i j : Nat) :
    (seen ||| 1 <<< i).testBit j = true ↔ seen.testBit j = true ∨ j = i := by
  rw [Nat.testBit_or, Nat.one_shiftLeft, Nat.testBit_two_pow, Bool.or_eq_true, decide_eq_true_eq,
    eq_comm (a := i)]

theorem mark_spec (seen : Nat) (is : List Nat) (i : Nat) :
    (i ∈ (mark seen is).1 ↔ i ∈ is ∧ ¬ seen.testBit i = true) ∧
      ((mark seen is).2.testBit i = true ↔ seen.testBit i = true ∨ i ∈ is) := by
  induction is generalizing seen with
  | nil => simp [mark]
  | cons j is ih =>
    by_cases hj : seen.testBit j = true
    · obtain ⟨hfresh, hseen⟩ := ih seen
      rw [mark, if_pos hj, hfresh, hseen, List.mem_cons]
      by_cases hi : i = j
      · subst hi
        simp [hj]
      · simp [hi]
    · obtain ⟨hfresh, hseen⟩ := ih (seen ||| 1 <<< j)
      rw [mark, if_neg hj]
      simp only [List.mem_cons, hfresh, hseen, testBit_insert]
      by_cases hi : i = j
      · subst hi
        simp [hj]
      · simp [hi]

theorem mem_mark {seen : Nat} {is : List Nat} {i : Nat} :
    i ∈ (mark seen is).1 ↔ i ∈ is ∧ ¬ seen.testBit i = true := (mark_spec seen is i).1

theorem testBit_mark {seen : Nat} {is : List Nat} {i : Nat} :
    (mark seen is).2.testBit i = true ↔ seen.testBit i = true ∨ i ∈ is := (mark_spec seen is i).2

def Rounds (R : Nat → Nat → Prop) : Nat → Nat → Nat → Prop
  | 0, i, j => i = j
  | n + 1, i, k => ∃ j, R i j ∧ Rounds R n j k

namespace Rounds

variable {R : Nat → Nat → Prop} {m n i j k : Nat}

theorem append (h : Rounds R m i j) (h' : Rounds R n j k) : Rounds R (m + n) i k := by
  induction m generalizing i with
  | zero =>
    cases h
    rwa [Nat.zero_add]
  | succ m ih =>
    obtain ⟨l, hR, h⟩ := h
    rw [Nat.succ_add]
    exact ⟨l, hR, ih h⟩

theorem split (h : Rounds R (m + n) i k) : ∃ j, Rounds R m i j ∧ Rounds R n j k := by
  induction m generalizing i with
  | zero => exact ⟨i, rfl, by rwa [Nat.zero_add] at h⟩
  | succ m ih =>
    rw [Nat.succ_add] at h
    obtain ⟨l, hR, h⟩ := h
    obtain ⟨j, hm, hn⟩ := ih h
    exact ⟨j, ⟨l, hR, hm⟩, hn⟩

theorem single (h : R i j) : Rounds R 1 i j := ⟨j, h, rfl⟩

theorem le (hR : ∀ {i j}, R i j → i ≤ j) (h : Rounds R n i j) : i ≤ j := by
  induction n generalizing i with
  | zero => exact Nat.le_of_eq h
  | succ n ih =>
    obtain ⟨l, hil, h⟩ := h
    exact Nat.le_trans (hR hil) (ih h)

theorem shorten (hR : ∀ {i j}, R i j → i ≤ j) (h : Rounds R n i j) :
    ∃ m, m ≤ n ∧ m ≤ j - i ∧ Rounds R m i j := by
  induction n generalizing i with
  | zero => exact ⟨0, Nat.le_refl _, Nat.zero_le _, h⟩
  | succ n ih =>
    obtain ⟨l, hil, h⟩ := h
    obtain ⟨m, hmn, hm, hrest⟩ := ih h
    -- Rounds that stay where they are can be left out.
    by_cases heq : i = l
    · subst heq
      exact ⟨m, by omega, hm, hrest⟩
    · have hlt := hR hil
      have hle := hrest.le hR
      exact ⟨m + 1, by omega, by omega, l, hil, hrest⟩

end Rounds

/-- `step` goes from places back to those from which `R` leads to one of them, as long as they lie in
a text of length `size`; `R` never leads back. -/
structure Backward (size : Nat) (step : List Nat → List Nat) (R : Nat → Nat → Prop) : Prop where
  mem_iff : ∀ {ends : List Nat}, (∀ j ∈ ends, j ≤ size) → ∀ {i}, i ∈ step ends ↔ ∃ j ∈ ends, R i j
  le : ∀ {i j}, R i j → i ≤ j

namespace Backward

variable {size : Nat} {step : List Nat → List Nat} {R : Nat → Nat → Prop} {ends : List Nat}

theorem mem_le (h : Backward size step R) (hends : ∀ j ∈ ends, j ≤ size) :
    ∀ i ∈ step ends, i ≤ size := by
  intro i hi
  obtain ⟨j, hj, hR⟩ := (h.mem_iff hends).mp hi
  exact Nat.le_trans (h.le hR) (hends j hj)

theorem step_nil (h : Backward size step R) : step [] = [] := by
  refine List.eq_nil_iff_forall_not_mem.mpr fun i hi => ?_
  obtain ⟨j, hj, -⟩ := (h.mem_iff (by simp)).mp hi
  cases hj

theorem exactly_succ (h : Backward size step R) (n : Nat) (ends : List Nat) :
    exactly step (n + 1) ends = exactly step n (step ends) := by
  have hnil (n : Nat) : exactly step n [] = [] := by cases n <;> rfl
  rw [exactly]
  split
  · rename_i hempty
    rw [List.isEmpty_iff.mp hempty, h.step_nil, hnil]
  · rfl

theorem spread_succ (h : Backward size step R) (n seen : Nat) (frontier : List Nat) :
    spread step (n + 1) seen frontier = frontier ++
      spread step n (mark seen (step frontier)).2 (mark seen (step frontier)).1 := by
  have hnil (n seen : Nat) : spread step n seen [] = [] := by cases n <;> rfl
  rw [spread]
  split
  · rename_i hempty
    rw [List.isEmpty_iff.mp hempty, h.step_nil, mark, hnil, List.append_nil]
  · rfl

theorem mem_spread_of_mem (h : Backward size step R) (n seen : Nat) {frontier : List Nat} {i : Nat}
    (hi : i ∈ frontier) : i ∈ spread step n seen frontier := by
  cases n with
  | zero => exact hi
  | succ n =>
    rw [h.spread_succ]
    exact List.mem_append_left _ hi

theorem mem_exactly (h : Backward size step R) {n : Nat} (hends : ∀ j ∈ ends, j ≤ size) {i : Nat} :
    i ∈ exactly step n ends ↔ ∃ j ∈ ends, Rounds R n i j := by
  induction n generalizing ends with
  | zero => simp [exactly, Rounds]
  | succ n ih =>
    rw [h.exactly_succ, ih (h.mem_le hends)]
    constructor
    · rintro ⟨j, hj, hrounds⟩
      obtain ⟨k, hk, hR⟩ := (h.mem_iff hends).mp hj
      exact ⟨k, hk, hrounds.append (.single hR)⟩
    · rintro ⟨k, hk, hrounds⟩
      obtain ⟨j, hn, l, hR, rfl⟩ := hrounds.split
      exact ⟨j, (h.mem_iff hends).mpr ⟨l, hk, hR⟩, hn⟩

theorem rounds_of_mem_spread (h : Backward size step R) {n seen : Nat} {frontier : List Nat}
    (hfrontier : ∀ j ∈ frontier, j ≤ size) {i : Nat} (hi : i ∈ spread step n seen frontier) :
    ∃ m ≤ n, ∃ j ∈ frontier, Rounds R m i j := by
  induction n generalizing seen frontier with
  | zero => exact ⟨0, Nat.le_refl _, i, hi, rfl⟩
  | succ n ih =>
    rw [h.spread_succ] at hi
    rcases List.mem_append.mp hi with hi | hi
    · exact ⟨0, Nat.zero_le _, i, hi, rfl⟩
    · have hfresh (j : Nat) (hj : j ∈ (mark seen (step frontier)).1) : j ∈ step frontier :=
        (mem_mark.mp hj).1
      obtain ⟨m, hm, j, hj, hrounds⟩ := ih (fun j hj => h.mem_le hfrontier j (hfresh j hj)) hi
      obtain ⟨k, hk, hR⟩ := (h.mem_iff hfrontier).mp (hfresh j hj)
      exact ⟨m + 1, by omega, k, hk, hrounds.append (.single hR)⟩

/-- What is marked has been stepped back from, unless it stands in the frontier. -/
def Explored (R : Nat → Nat → Prop) (seen : Nat) (frontier : List Nat) : Prop :=
  ∀ j, seen.testBit j = true → j ∉ frontier → ∀ i, R i j → seen.testBit i = true

theorem mem_spread_of_rounds (h : Backward size step R) {m n seen : Nat} {frontier : List Nat}
    (hfrontier : ∀ j ∈ frontier, j ≤ size) (hexp : Explored R seen frontier) {i j : Nat}
    (hm : m ≤ n) (hj : seen.testBit j = true) (hrounds : Rounds R m i j) :
    i ∈ spread step n seen frontier ∨ seen.testBit i = true := by
  induction n generalizing m seen frontier j with
  | zero =>
    obtain rfl : m = 0 := by omega
    cases hrounds
    exact .inr hj
  | succ n ih =>
    cases m with
    | zero =>
      cases hrounds
      exact .inr hj
    | succ m =>
      obtain ⟨k, hrest, j, hR, rfl⟩ := hrounds.split
      have hfresh (j : Nat) (hj : j ∈ (mark seen (step frontier)).1) : j ≤ size :=
        h.mem_le hfrontier j (mem_mark.mp hj).1
      -- whatever leads in one step to something marked is marked after this round
      have hnext (j i : Nat) (hj : seen.testBit j = true) (hR : R i j) :
          (mark seen (step frontier)).2.testBit i = true := by
        by_cases hmem : j ∈ frontier
        · exact testBit_mark.mpr (.inr ((h.mem_iff hfrontier).mpr ⟨j, hmem, hR⟩))
        · exact testBit_mark.mpr (.inl (hexp j hj hmem i hR))
      have hexp' : Explored R (mark seen (step frontier)).2 (mark seen (step frontier)).1 := by
        intro j hj hnot i hR
        rcases testBit_mark.mp hj with hseen | hstep
        · exact hnext j i hseen hR
        · have hseen : seen.testBit j = true :=
            Decidable.byContradiction fun hunseen => hnot (mem_mark.mpr ⟨hstep, hunseen⟩)
          exact hnext j i hseen hR
      rw [h.spread_succ]
      rcases ih hfresh hexp' (Nat.le_of_succ_le_succ hm) (hnext j k hj hR) hrest with hi | hi
      · exact .inl (List.mem_append_right _ hi)
      · by_cases hseen : seen.testBit i = true
        · exact .inr hseen
        · have hstep := (testBit_mark.mp hi).resolve_left hseen
          have hi := h.mem_spread_of_mem n (mark seen (step frontier)).2 (mem_mark.mpr ⟨hstep, hseen⟩)
          exact .inl (List.mem_append_right _ hi)

theorem mem_within (h : Backward size step R) {n : Nat} (hends : ∀ j ∈ ends, j ≤ size) {i : Nat} :
    i ∈ within step n ends ↔ ∃ m ≤ n, ∃ j ∈ ends, Rounds R m i j := by
  have hfresh (j : Nat) : j ∈ (mark 0 ends).1 ↔ j ∈ ends := by simp [mem_mark]
  have hseen (j : Nat) : (mark 0 ends).2.testBit j = true ↔ j ∈ ends := by simp [testBit_mark]
  have hbound (j : Nat) (hj : j ∈ (mark 0 ends).1) : j ≤ size := hends j ((hfresh j).mp hj)
  constructor
  · intro hi
    obtain ⟨m, hm, j, hj, hrounds⟩ := h.rounds_of_mem_spread hbound hi
    exact ⟨m, hm, j, (hfresh j).mp hj, hrounds⟩
  · rintro ⟨m, hm, j, hj, hrounds⟩
    have hexp : Explored R (mark 0 ends).2 (mark 0 ends).1 := fun j hj hnot =>
      absurd ((hfresh j).mpr ((hseen j).mp hj)) hnot
    rcases h.mem_spread_of_rounds hbound hexp hm ((hseen j).mpr hj) hrounds with hi | hi
    · exact hi
    · exact h.mem_spread_of_mem n _ ((hfresh i).mpr ((hseen i).mp hi))

theorem mem_exactly_le (h : Backward size step R) {n : Nat} (hends : ∀ j ∈ ends, j ≤ size) :
    ∀ i ∈ exactly step n ends, i ≤ size := by
  intro i hi
  obtain ⟨j, hj, hrounds⟩ := (h.mem_exactly hends).mp hi
  exact Nat.le_trans (hrounds.le h.le) (hends j hj)

theorem mem_within_le (h : Backward size step R) {n : Nat} (hends : ∀ j ∈ ends, j ≤ size) :
    ∀ i ∈ within step n ends, i ≤ size := by
  intro i hi
  obtain ⟨m, -, j, hj, hrounds⟩ := (h.mem_within hends).mp hi
  exact Nat.le_trans (hrounds.le h.le) (hends j hj)

end Backward

/-! ### What a tree matches -/

/-- The tree matches the text `w` from place `i` to place `j`. -/
def Node.Matches (w : Array Char) : Node → (i j : Nat) → Prop
  | empty, i, j => i = j
  | set chars, i, j => j = i + 1 ∧ ∃ c, w[i]? = some c ∧ chars.contains c = true
  | assert a, i, j => i = j ∧ a.holdsAt w i = true
  | group _ a, i, j => a.Matches w i j
  | seq a b, i, k => ∃ j, a.Matches w i j ∧ b.Matches w j k
  | alt a b, i, j => a.Matches w i j ∨ b.Matches w i j
  | rep _ least most a, i, j =>
    ∃ n, least ≤ n ∧ (∀ m, most = some m → n ≤ max least m) ∧ Rounds (a.Matches w) n i j

namespace Node

variable {w : Array Char} {i j : Nat}

theorem Matches.le {n : Node} (h : n.Matches w i j) : i ≤ j := by
  induction n generalizing i j with
  | empty => exact Nat.le_of_eq h
  | set chars => exact Nat.le_of_lt (Nat.lt_of_lt_of_eq (Nat.lt_succ_self i) h.1.symm)
  | assert a => exact Nat.le_of_eq h.1
  | group k a iha => exact iha h
  | seq a b iha ihb =>
    obtain ⟨k, ha, hb⟩ := h
    exact Nat.le_trans (iha ha) (ihb hb)
  | alt a b iha ihb =>
    rcases h with ha | hb
    · exact iha ha
    · exact ihb hb
  | rep greedy least most a iha =>
    obtain ⟨n, -, -, hrounds⟩ := h
    exact hrounds.le iha

theorem mem_starts_rep {step : List Nat → List Nat} {R : Nat → Nat → Prop} {size least rounds : Nat}
    {ends : List Nat} (h : Backward size step R) (hends : ∀ j ∈ ends, j ≤ size) :
    i ∈ exactly step least (within step rounds ends) ↔
      ∃ j ∈ ends, ∃ m ≤ rounds, Rounds R (least + m) i j := by
  rw [h.mem_exactly (h.mem_within_le hends)]
  constructor
  · rintro ⟨k, hk, hleast⟩
    obtain ⟨m, hm, j, hj, hrest⟩ := (h.mem_within hends).mp hk
    exact ⟨j, hj, m, hm, hleast.append hrest⟩
  · rintro ⟨j, hj, m, hm, hrounds⟩
    obtain ⟨k, hleast, hrest⟩ := hrounds.split
    exact ⟨k, (h.mem_within hends).mpr ⟨m, hm, j, hj, hrest⟩, hleast⟩

theorem backward_starts (w : Array Char) (n : Node) : Backward w.size (n.starts w) (n.Matches w) where
  le := Matches.le
  mem_iff := by
    induction n with
    | empty => simp [starts, Matches]
    | set chars =>
      intro ends _ i
      simp only [starts, Matches, List.mem_filterMap, Option.ite_none_right_eq_some,
        Option.any_eq_true, Option.some.injEq]
      constructor
      · rintro ⟨j, hj, ⟨hpos, hc⟩, rfl⟩
        exact ⟨j, hj, by omega, hc⟩
      · rintro ⟨j, hj, rfl, hc⟩
        exact ⟨i + 1, hj, ⟨Nat.succ_pos i, hc⟩, rfl⟩
    | assert a =>
      intro ends _ i
      simp only [starts, Matches, List.mem_filter]
      constructor
      · rintro ⟨hi, ha⟩
        exact ⟨i, hi, rfl, ha⟩
      · rintro ⟨j, hj, rfl, ha⟩
        exact ⟨hj, ha⟩
    | group k a iha => exact iha
    | seq a b iha ihb =>
      intro ends hends i
      have hb : Backward w.size (b.starts w) (b.Matches w) := ⟨ihb, Matches.le⟩
      rw [starts, iha (hb.mem_le hends)]
      constructor
      · rintro ⟨j, hj, ha⟩
        obtain ⟨k, hk, hb⟩ := (ihb hends).mp hj
        exact ⟨k, hk, j, ha, hb⟩
      · rintro ⟨k, hk, j, ha, hb⟩
        exact ⟨j, (ihb hends).mpr ⟨k, hk, hb⟩, ha⟩
    | alt a b iha ihb =>
      intro ends hends i
      have hunmarked : i ∈ (mark 0 (a.starts w ends ++ b.starts w ends)).1 ↔
          i ∈ a.starts w ends ∨ i ∈ b.starts w ends := by simp [mem_mark]
      rw [starts, hunmarked, iha hends, ihb hends]
      simp only [Matches, ← exists_or, and_or_left]
    | rep greedy least most a iha =>
      intro ends hends i
      have ha : Backward w.size (a.starts w) (a.Matches w) := ⟨iha, Matches.le⟩
      cases most with
      | none =>
        rw [starts, mem_starts_rep ha hends]
        constructor
        · rintro ⟨j, hj, m, -, hrounds⟩
          exact ⟨j, hj, least + m, Nat.le_add_right _ _, by simp, hrounds⟩
        · rintro ⟨j, hj, n, hn, -, hrounds⟩
          -- the rounds beyond the least number can be shortened to what the text has room for
          obtain ⟨m, rfl⟩ := Nat.exists_eq_add_of_le hn
          obtain ⟨k, hleast, hrest⟩ := hrounds.split
          obtain ⟨m', -, hm', hshort⟩ := hrest.shorten Matches.le
          have hjle := hends j hj
          exact ⟨j, hj, m', by omega, hleast.append hshort⟩
      | some most =>
        rw [starts, mem_starts_rep ha hends]
        constructor
        · rintro ⟨j, hj, m, hm, hrounds⟩
          refine ⟨j, hj, least + m, Nat.le_add_right _ _, ?_, hrounds⟩
          rintro _ ⟨⟩
          omega
        · rintro ⟨j, hj, n, hn, hmost, hrounds⟩
          obtain ⟨m, rfl⟩ := Nat.exists_eq_add_of_le hn
          have := hmost most rfl
          exact ⟨j, hj, m, by omega, hrounds⟩

end Node

/-! ### The way forwards -/

/-- Every way that `body` takes goes to one of the places wanted, and keeps the number of groups. -/
def Arrives (body : Follow) : Prop :=
  ∀ {ends i g j g'}, body ends i g = some (j, g') → j ∈ ends ∧ g'.length = g.length

theorem arrives_stay : Arrives stay := by
  intro ends i g j g' h
  unfold stay at h
  split at h
  · rename_i hmem
    cases h
    exact ⟨by simpa using hmem, rfl⟩
  · cases h

theorem firstOf_eq_some {more less : Option (Nat × Groups)} {greedy : Bool} {r : Nat × Groups}
    (h : firstOf more less greedy = some r) : more = some r ∨ less = some r := by
  unfold firstOf at h
  split at h
  · exact (Option.or_eq_some_iff.mp h).imp_right And.right
  · exact (Option.or_eq_some_iff.mp h).symm.imp And.right id

section Follow

variable {body : Follow} {greedy : Bool} {ends loop : List Nat} {i j : Nat} {g g' : Groups}

theorem arrives_followExactly (hbody : Arrives body) {step : List Nat → List Nat}
    {next : Nat → Groups → Option (Nat × Groups)} {wanted : List Nat}
    (hnext : ∀ {i g j g'}, next i g = some (j, g') → j ∈ wanted ∧ g'.length = g.length) {n : Nat}
    (h : followExactly step body ends next n i g = some (j, g')) :
    j ∈ wanted ∧ g'.length = g.length := by
  induction n generalizing i g with
  | zero => exact hnext h
  | succ n ih =>
    obtain ⟨⟨k, gk⟩, hk, h⟩ := Option.bind_eq_some_iff.mp h
    obtain ⟨hj, hlen⟩ := ih h
    exact ⟨hj, hlen.trans (hbody hk).2⟩

theorem arrives_followUpTo (hbody : Arrives body) {step : List Nat → List Nat} {n : Nat}
    (h : followUpTo step body greedy ends n i g = some (j, g')) :
    j ∈ ends ∧ g'.length = g.length := by
  induction n generalizing i g with
  | zero => exact arrives_stay h
  | succ n ih =>
    rcases firstOf_eq_some h with h | h
    · obtain ⟨⟨k, gk⟩, hk, h⟩ := Option.bind_eq_some_iff.mp h
      obtain ⟨hj, hlen⟩ := ih h
      exact ⟨hj, hlen.trans (hbody hk).2⟩
    · exact arrives_stay h

theorem arrives_followMore (hbody : Arrives body) {n : Nat}
    (h : followMore body greedy loop ends n i g = some (j, g')) :
    j ∈ ends ∧ g'.length = g.length := by
  induction n generalizing i g with
  | zero => exact arrives_stay h
  | succ n ih =>
    rcases firstOf_eq_some h with h | h
    · obtain ⟨⟨k, gk⟩, hk, h⟩ := Option.bind_eq_some_iff.mp h
      obtain ⟨hj, hlen⟩ := ih h
      exact ⟨hj, hlen.trans (hbody hk).2⟩
    · exact arrives_stay h

theorem arrives_followRound (hbody : Arrives body) {size : Nat}
    (h : followRound body greedy loop ends size i g = some (j, g')) :
    j ∈ ends ∧ g'.length = g.length := by
  obtain ⟨⟨k, gk⟩, hk, h⟩ := Option.bind_eq_some_iff.mp h
  obtain ⟨hmem, hlen⟩ := hbody hk
  simp only at h
  split at h
  · rename_i heq
    cases h
    subst heq
    exact ⟨by simpa using (List.mem_filter.mp hmem).2, hlen⟩
  · obtain ⟨hj, hlen'⟩ := arrives_followMore hbody h
    exact ⟨hj, hlen'.trans hlen⟩

end Follow

theorem Node.arrives_follow (w : Array Char) (n : Node) : Arrives (n.follow w) := by
  induction n with
  | empty => exact arrives_stay
  | set chars =>
    intro ends i g j g' h
    simp only [follow] at h
    split at h
    · exact arrives_stay h
    · cases h
  | assert a =>
    intro ends i g j g' h
    simp only [follow] at h
    split at h
    · exact arrives_stay h
    · cases h
  | group k a iha =>
    intro ends i g j g' h
    obtain ⟨⟨l, gl⟩, hl, h⟩ := Option.bind_eq_some_iff.mp h
    cases h
    obtain ⟨hj, hlen⟩ := iha hl
    exact ⟨hj, by rw [List.length_set, hlen]⟩
  | seq a b iha ihb =>
    intro ends i g j g' h
    obtain ⟨⟨l, gl⟩, hl, h⟩ := Option.bind_eq_some_iff.mp h
    obtain ⟨hj, hlen⟩ := ihb h
    exact ⟨hj, hlen.trans (iha hl).2⟩
  | alt a b iha ihb =>
    intro ends i g j g' h
    rcases Option.or_eq_some_iff.mp h with h | ⟨-, h⟩
    · exact iha h
    · exact ihb h
  | rep greedy least most a iha =>
    intro ends i g j g' h
    cases most with
    | none =>
      cases least with
      | zero =>
        rcases firstOf_eq_some h with h | h
        · exact arrives_followRound iha h
        · exact arrives_stay h
      | succ least => exact arrives_followExactly iha (arrives_followRound iha) h
    | some most => exact arrives_followExactly iha (arrives_followUpTo iha) h

/-! ### Searching -/

theorem places_le (text : List Char) : ∀ j ∈ List.range (text.length + 1), j ≤ text.toArray.size := by
  intro j hj
  exact Nat.le_of_lt_succ (List.mem_range.mp hj)

namespace Node

variable {n : Node} {text : List Char} {i : Nat}

theorem mem_beginnings : i ∈ n.beginnings text ↔ ∃ j ≤ text.length, n.Matches text.toArray i j := by
  rw [beginnings, (backward_starts text.toArray n).mem_iff (places_le text)]
  simp only [List.mem_range, Nat.lt_succ_iff]

theorem isMatch_iff : n.isMatch text = true ↔ ∃ i j, j ≤ text.length ∧ n.Matches text.toArray i j := by
  rw [isMatch, Bool.not_eq_true', ← Bool.not_eq_true, List.isEmpty_iff]
  constructor
  · intro h
    obtain ⟨i, hi⟩ := List.exists_mem_of_ne_nil _ h
    exact ⟨i, mem_beginnings.mp hi⟩
  · rintro ⟨i, hi⟩ hnil
    have hmem := mem_beginnings.mpr hi
    rw [hnil] at hmem
    cases hmem

end Node

end StreamParser.Regex
