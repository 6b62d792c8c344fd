import StreamParser.Proofs.Matching

/-!
# The way forwards is found

Places are found backwards, and from one of them the groups are found by going forwards. Each way forwards is
a match, and from each place that was found backwards there is one (`Node.tracks_follow`): a choice is made
only where the end can still be reached from what is chosen, so none is ever taken back. Hence what the tree
engine compiles answers as patterns rely on (`Node.agrees_regex`, `Node.findsAt_regex`).
-/

namespace StreamParser.Regex

namespace Rounds

variable {R : Nat → Nat → Prop} {n i j : Nat}

theorem leave (h : Rounds R n i j) (hij : i ≠ j) : ∃ k, k ≠ i ∧ R i k ∧ ∃ m, Rounds R m k j := by
  induction n with
  | zero => exact absurd h hij
  | succ n ih =>
    obtain ⟨k, hR, hrest⟩ := h
    by_cases hk : k = i
    · subst hk
      exact ih hrest
    · exact ⟨k, hk, hR, n, hrest⟩

end Rounds

theorem isSome_stay {ends : List Nat} {i : Nat} (hi : i ∈ ends) (g : Groups) : (stay ends i g).isSome := by
  rw [stay, if_pos (List.contains_iff_mem.mpr hi)]
  rfl

theorem isSome_firstOf {more less : Option (Nat × Groups)} (h : more.isSome ∨ less.isSome) (greedy : Bool) :
    (firstOf more less greedy).isSome := by
  unfold firstOf
  split
  · rw [Option.isSome_or, Bool.or_eq_true]
    exact h
  · rw [Option.isSome_or, Bool.or_eq_true]
    exact h.symm

theorem stay_eq_some {ends : List Nat} {i j : Nat} {g g' : Groups} (h : stay ends i g = some (j, g')) :
    i = j := by
  unfold stay at h
  split at h
  · cases h
    rfl
  · cases h

/-- `body` goes forwards over `R` where `step` goes backwards: its ways are steps of `R` to the places wanted,
and from each place that `step` finds it has one. -/
structure Tracks (size : Nat) (step : List Nat → List Nat) (R : Nat → Nat → Prop) (body : Follow) : Prop where
  backward : Backward size step R
  arrives : Arrives body
  related {ends : List Nat} {i j : Nat} {g g' : Groups} (h : body ends i g = some (j, g')) : R i j
  finds {ends : List Nat} (hends : ∀ j ∈ ends, j ≤ size) {i : Nat} (hi : i ∈ step ends) (g : Groups) :
    (body ends i g).isSome

namespace Tracks

variable {size : Nat} {step : List Nat → List Nat} {R : Nat → Nat → Prop} {body : Follow}
variable {ends loop : List Nat} {greedy : Bool} {n i j : Nat} {g g' : Groups}

theorem exists_way (h : Tracks size step R body) (hends : ∀ j ∈ ends, j ≤ size) (hj : j ∈ ends) (hR : R i j)
    (g : Groups) : ∃ k g', body ends i g = some (k, g') ∧ k ∈ ends ∧ R i k := by
  have hi : i ∈ step ends := (h.backward.mem_iff hends).mpr ⟨j, hj, hR⟩
  obtain ⟨⟨k, g'⟩, hway⟩ := Option.isSome_iff_exists.mp (h.finds hends hi g)
  exact ⟨k, g', hway, (h.arrives hway).1, h.related hway⟩

/-! ### A number of rounds -/

theorem followExactly_related (h : Tracks size step R body) {next : Nat → Groups → Option (Nat × Groups)}
    {S : Nat → Nat → Prop} (hnext : ∀ {i g j g'}, next i g = some (j, g') → S i j)
    (hway : followExactly step body ends next n i g = some (j, g')) : ∃ k, Rounds R n i k ∧ S k j := by
  induction n generalizing i g with
  | zero => exact ⟨i, rfl, hnext hway⟩
  | succ n ih =>
    obtain ⟨⟨l, gl⟩, hl, hrest⟩ := Option.bind_eq_some_iff.mp hway
    obtain ⟨k, hrounds, hS⟩ := ih hrest
    exact ⟨k, ⟨l, h.related hl, hrounds⟩, hS⟩

theorem followExactly_isSome (h : Tracks size step R body) (hends : ∀ j ∈ ends, j ≤ size)
    {next : Nat → Groups → Option (Nat × Groups)} (hnext : ∀ i ∈ ends, ∀ g, (next i g).isSome)
    (hi : i ∈ exactly step n ends) (g : Groups) : (followExactly step body ends next n i g).isSome := by
  induction n generalizing i g with
  | zero => exact hnext i hi g
  | succ n ih =>
    obtain ⟨j, hj, k, hR, hrounds⟩ := (h.backward.mem_exactly hends).mp hi
    have hk : k ∈ exactly step n ends := (h.backward.mem_exactly hends).mpr ⟨j, hj, hrounds⟩
    obtain ⟨l, gl, hl, hmem, -⟩ := h.exists_way (h.backward.mem_exactly_le hends) hk hR g
    rw [followExactly, hl]
    exact ih hmem gl

theorem followUpTo_related (h : Tracks size step R body)
    (hway : followUpTo step body greedy ends n i g = some (j, g')) : ∃ m ≤ n, Rounds R m i j := by
  induction n generalizing i g with
  | zero => exact ⟨0, Nat.le_refl _, stay_eq_some hway⟩
  | succ n ih =>
    rcases firstOf_eq_some hway with hway | hway
    · obtain ⟨⟨l, gl⟩, hl, hrest⟩ := Option.bind_eq_some_iff.mp hway
      obtain ⟨m, hm, hrounds⟩ := ih hrest
      exact ⟨m + 1, Nat.succ_le_succ hm, l, h.related hl, hrounds⟩
    · exact ⟨0, Nat.zero_le _, stay_eq_some hway⟩

theorem followUpTo_isSome (h : Tracks size step R body) (hends : ∀ j ∈ ends, j ≤ size) (greedy : Bool)
    (hi : i ∈ within step n ends) (g : Groups) : (followUpTo step body greedy ends n i g).isSome := by
  induction n generalizing i g with
  | zero =>
    obtain ⟨m, hm, j, hj, hrounds⟩ := (h.backward.mem_within hends).mp hi
    obtain rfl : m = 0 := Nat.le_zero.mp hm
    obtain rfl : i = j := hrounds
    exact isSome_stay hj g
  | succ n ih =>
    obtain ⟨m, hm, j, hj, hrounds⟩ := (h.backward.mem_within hends).mp hi
    apply isSome_firstOf
    cases m with
    | zero =>
      obtain rfl : i = j := hrounds
      exact .inr (isSome_stay hj g)
    | succ m =>
      obtain ⟨k, hR, hrest⟩ := hrounds
      have hk : k ∈ within step n ends :=
        (h.backward.mem_within hends).mpr ⟨m, Nat.le_of_succ_le_succ hm, j, hj, hrest⟩
      obtain ⟨l, gl, hl, hmem, -⟩ := h.exists_way (h.backward.mem_within_le hends) hk hR g
      left
      rw [hl]
      exact ih hmem gl

/-! ### Any number of rounds -/

theorem mem_within_size (h : Backward size step R) (hends : ∀ j ∈ ends, j ≤ size) :
    i ∈ within step (size + 1) ends ↔ ∃ m, ∃ j ∈ ends, Rounds R m i j := by
  rw [h.mem_within hends]
  constructor
  · rintro ⟨m, -, hrounds⟩
    exact ⟨m, hrounds⟩
  · rintro ⟨m, j, hj, hrounds⟩
    obtain ⟨m', -, hm', hshort⟩ := hrounds.shorten h.le
    have hle := hends j hj
    exact ⟨m', by omega, j, hj, hshort⟩

theorem followMore_related (h : Tracks size step R body)
    (hway : followMore body greedy loop ends n i g = some (j, g')) : ∃ m, Rounds R m i j := by
  induction n generalizing i g with
  | zero => exact ⟨0, stay_eq_some hway⟩
  | succ n ih =>
    rcases firstOf_eq_some hway with hway | hway
    · obtain ⟨⟨l, gl⟩, hl, hrest⟩ := Option.bind_eq_some_iff.mp hway
      obtain ⟨m, hrounds⟩ := ih hrest
      exact ⟨m + 1, l, h.related hl, hrounds⟩
    · exact ⟨0, stay_eq_some hway⟩

theorem followRound_related (h : Tracks size step R body)
    (hway : followRound body greedy loop ends size i g = some (j, g')) : ∃ m, Rounds R (m + 1) i j := by
  obtain ⟨⟨l, gl⟩, hl, hrest⟩ := Option.bind_eq_some_iff.mp hway
  simp only at hrest
  split at hrest
  · cases hrest
    exact ⟨0, .single (h.related hl)⟩
  · obtain ⟨m, hrounds⟩ := h.followMore_related hrest
    exact ⟨m, l, h.related hl, hrounds⟩

theorem exists_next (hloop : ∀ {i}, i ∈ loop ↔ ∃ m, ∃ j ∈ ends, Rounds R m i j) (hi : i ∈ loop)
    (hnot : i ∉ ends) : ∃ k ∈ loop, k ≠ i ∧ R i k := by
  obtain ⟨m, j, hj, hrounds⟩ := hloop.mp hi
  have hij : i ≠ j := by
    rintro rfl
    exact hnot hj
  obtain ⟨k, hne, hR, m', hrest⟩ := hrounds.leave hij
  exact ⟨k, hloop.mpr ⟨m', j, hj, hrest⟩, hne, hR⟩

section Loop

variable (h : Tracks size step R body) (hends : ∀ j ∈ ends, j ≤ size)
variable (hloop : ∀ {i}, i ∈ loop ↔ ∃ m, ∃ j ∈ ends, Rounds R m i j)
include h hends hloop

theorem loop_le : ∀ i ∈ loop, i ≤ size := by
  intro i hi
  obtain ⟨m, j, hj, hrounds⟩ := hloop.mp hi
  exact Nat.le_trans (hrounds.le h.backward.le) (hends j hj)

/-- The induction is on what is left to consume, of which each of these rounds takes something. -/
theorem followMore_isSome (greedy : Bool) (hi : i ∈ loop) (hn : size ≤ i + n) (g : Groups) :
    (followMore body greedy loop ends n i g).isSome := by
  -- The induction is on what is left to consume, of which each of these rounds takes something.
  induction n generalizing i g with
  | zero =>
    obtain ⟨m, j, hj, hrounds⟩ := hloop.mp hi
    have hle := hrounds.le h.backward.le
    have hsize := hends j hj
    obtain rfl : i = j := by omega
    exact isSome_stay hj g
  | succ n ih =>
    apply isSome_firstOf
    by_cases hend : i ∈ ends
    · exact .inr (isSome_stay hend g)
    · obtain ⟨k, hk, hne, hR⟩ := exists_next hloop hi hend
      have hbound : ∀ j ∈ loop.filter (· ≠ i), j ≤ size := fun j hj =>
        h.loop_le hends hloop j (List.mem_filter.mp hj).1
      have hk' : k ∈ loop.filter (· ≠ i) := List.mem_filter.mpr ⟨hk, decide_eq_true hne⟩
      obtain ⟨l, gl, hl, hmem, hR'⟩ := h.exists_way hbound hk' hR g
      obtain ⟨hl', hne'⟩ := List.mem_filter.mp hmem
      have hle := h.backward.le hR'
      have hmoved : l ≠ i := of_decide_eq_true hne'
      left
      rw [hl]
      exact ih hl' (by omega) gl

theorem followRound_isSome (greedy : Bool) (hj : j ∈ loop) (hR : R i j) (g : Groups) :
    (followRound body greedy loop ends size i g).isSome := by
  -- Where the first round could only stay, the end is reached without it or a round that moves is possible.
  obtain ⟨k, hk, hRk, hwanted⟩ : ∃ k ∈ loop, R i k ∧ (k ≠ i ∨ i ∈ ends) := by
    by_cases hji : j = i
    · subst hji
      by_cases hend : j ∈ ends
      · exact ⟨j, hj, hR, .inr hend⟩
      · obtain ⟨k, hk, hne, hRk⟩ := exists_next hloop hj hend
        exact ⟨k, hk, hRk, .inl hne⟩
    · exact ⟨j, hj, hR, .inl hji⟩
  have hbound : ∀ l ∈ loop.filter fun l => l ≠ i || ends.contains i, l ≤ size := fun l hl =>
    h.loop_le hends hloop l (List.mem_filter.mp hl).1
  have hk' : k ∈ loop.filter fun l => l ≠ i || ends.contains i := by
    apply List.mem_filter.mpr
    simpa using ⟨hk, hwanted⟩
  obtain ⟨l, gl, hl, hmem, -⟩ := h.exists_way hbound hk' hRk g
  rw [followRound, hl]
  by_cases hli : l = i
  · simp [hli]
  · have hmore := h.followMore_isSome hends hloop greedy (List.mem_filter.mp hmem).1 (Nat.le_add_left _ _) gl
    simpa [hli] using hmore

end Loop

end Tracks

namespace Node

variable {w : Array Char} {a : Node}

theorem tracks_follow_rep_none (ha : Tracks w.size (a.starts w) (a.Matches w) (a.follow w)) (greedy : Bool)
    (least : Nat) : Tracks w.size ((rep greedy least none a).starts w) ((rep greedy least none a).Matches w)
      ((rep greedy least none a).follow w) where
  backward := backward_starts w _
  arrives := arrives_follow w _
  related {ends i j g g'} h := by
    cases least with
    | zero =>
      rcases firstOf_eq_some h with h | h
      · obtain ⟨m, hrounds⟩ := ha.followRound_related h
        exact ⟨m + 1, Nat.zero_le _, by simp, hrounds⟩
      · exact ⟨0, Nat.le_refl _, by simp, stay_eq_some h⟩
    | succ least =>
      obtain ⟨k, hleast, m, hrest⟩ :=
        ha.followExactly_related (S := fun k j => ∃ m, Rounds (a.Matches w) (m + 1) k j)
          (fun hway => ha.followRound_related hway) h
      exact ⟨least + (m + 1), by omega, by simp, hleast.append hrest⟩
  finds {ends} hends {i} hi g := by
    have hloop {k : Nat} := Tracks.mem_within_size (i := k) ha.backward hends
    have hbound := ha.backward.mem_within_le (n := w.size + 1) hends
    -- from where one round leads into the loop, the way forwards begins with a round
    have hround (k : Nat) (hk : k ∈ a.starts w (within (a.starts w) (w.size + 1) ends)) (g : Groups) :
        (followRound (a.follow w) greedy (within (a.starts w) (w.size + 1) ends) ends w.size k g).isSome := by
      obtain ⟨j, hj, hR⟩ := (ha.backward.mem_iff hbound).mp hk
      exact ha.followRound_isSome hends hloop greedy hj hR g
    cases least with
    | zero =>
      apply isSome_firstOf
      by_cases hend : i ∈ ends
      · exact .inr (isSome_stay hend g)
      · left
        obtain ⟨k, hk, -, hR⟩ := Tracks.exists_next hloop hi hend
        exact hround i ((ha.backward.mem_iff hbound).mpr ⟨k, hk, hR⟩) g
    | succ least =>
      rw [starts, ha.backward.exactly_succ] at hi
      exact ha.followExactly_isSome (ha.backward.mem_le hbound) hround hi g

theorem tracks_follow_rep_some (ha : Tracks w.size (a.starts w) (a.Matches w) (a.follow w)) (greedy : Bool)
    (least most : Nat) : Tracks w.size ((rep greedy least (some most) a).starts w)
      ((rep greedy least (some most) a).Matches w) ((rep greedy least (some most) a).follow w) where
  backward := backward_starts w _
  arrives := arrives_follow w _
  related {ends i j g g'} h := by
    obtain ⟨k, hleast, m, hm, hrest⟩ :=
      ha.followExactly_related (S := fun k j => ∃ m ≤ most - least, Rounds (a.Matches w) m k j)
        (fun hway => ha.followUpTo_related hway) h
    refine ⟨least + m, Nat.le_add_right _ _, ?_, hleast.append hrest⟩
    rintro _ ⟨⟩
    omega
  finds {ends} hends {i} hi g :=
    ha.followExactly_isSome (ha.backward.mem_within_le hends)
      (fun _ hk g => ha.followUpTo_isSome hends greedy hk g) hi g

/-- The way forwards through a tree is a match, and there is one from each place that was found backwards. -/
theorem tracks_follow (w : Array Char) (n : Node) :
    Tracks w.size (n.starts w) (n.Matches w) (n.follow w) := by
  induction n with
  | empty =>
    refine ⟨backward_starts w _, arrives_follow w _, fun h => stay_eq_some h, ?_⟩
    intro ends _ i hi g
    exact isSome_stay hi g
  | set chars =>
    refine ⟨backward_starts w _, arrives_follow w _, ?_, ?_⟩
    · intro ends i j g g' h
      simp only [follow] at h
      split at h
      · rename_i hchar
        exact ⟨(stay_eq_some h).symm, (Option.any_eq_true _ _).mp hchar⟩
      · cases h
    · intro ends hends i hi g
      obtain ⟨j, hj, rfl, hchar⟩ := ((backward_starts w _).mem_iff hends).mp hi
      simp only [follow]
      rw [if_pos ((Option.any_eq_true _ _).mpr hchar)]
      exact isSome_stay hj g
  | assert a =>
    refine ⟨backward_starts w _, arrives_follow w _, ?_, ?_⟩
    · intro ends i j g g' h
      simp only [follow] at h
      split at h
      · rename_i ha
        exact ⟨stay_eq_some h, ha⟩
      · cases h
    · intro ends _ i hi g
      obtain ⟨hend, ha⟩ := List.mem_filter.mp hi
      simp only [follow]
      rw [if_pos ha]
      exact isSome_stay hend g
  | group k a iha =>
    refine ⟨backward_starts w _, arrives_follow w _, ?_, ?_⟩
    · intro ends i j g g' h
      obtain ⟨⟨l, gl⟩, hl, hrest⟩ := Option.bind_eq_some_iff.mp h
      cases hrest
      exact iha.related hl
    · intro ends hends i hi g
      obtain ⟨⟨l, gl⟩, hl⟩ := Option.isSome_iff_exists.mp (iha.finds hends hi g)
      simp only [follow]
      rw [hl]
      rfl
  | seq a b iha ihb =>
    refine ⟨backward_starts w _, arrives_follow w _, ?_, ?_⟩
    · intro ends i j g g' h
      obtain ⟨⟨l, gl⟩, hl, hrest⟩ := Option.bind_eq_some_iff.mp h
      exact ⟨l, iha.related hl, ihb.related hrest⟩
    · intro ends hends i hi g
      obtain ⟨⟨l, gl⟩, hl⟩ :=
        Option.isSome_iff_exists.mp (iha.finds (ihb.backward.mem_le hends) hi g)
      simp only [follow]
      rw [hl]
      exact ihb.finds hends (iha.arrives hl).1 gl
  | alt a b iha ihb =>
    refine ⟨backward_starts w _, arrives_follow w _, ?_, ?_⟩
    · intro ends i j g g' h
      rcases Option.or_eq_some_iff.mp h with h | ⟨-, h⟩
      · exact .inl (iha.related h)
      · exact .inr (ihb.related h)
    · intro ends hends i hi g
      have hside : i ∈ a.starts w ends ∨ i ∈ b.starts w ends :=
        List.mem_append.mp (mem_mark.mp hi).1
      simp only [follow]
      rw [Option.isSome_or, Bool.or_eq_true]
      exact hside.imp (iha.finds hends · g) (ihb.finds hends · g)
  | rep greedy least most a iha =>
    cases most with
    | none => exact tracks_follow_rep_none iha greedy least
    | some most => exact tracks_follow_rep_some iha greedy least most

end Node

/-! ### The leftmost match -/

namespace Node

variable {n : Node} {text : List Char} {i j : Nat} {g : Groups}

theorem groupCount_pos (n : Node) : 0 < n.groupCount := by
  induction n with
  | empty | set | assert => exact Nat.one_pos
  | group k a => exact Nat.lt_of_lt_of_le (Nat.succ_pos k) (Nat.le_max_left _ _)
  | seq a b iha | alt a b iha => exact Nat.lt_of_lt_of_le iha (Nat.le_max_left _ _)
  | rep greedy least most a iha => exact iha

theorem isSome_search? (n : Node) (text : List Char) : (n.search? text).isSome = n.isMatch text := by
  rw [search?, isMatch]
  cases hfirst : (n.beginnings text).min? with
  | none =>
    rw [List.min?_eq_none_iff.mp hfirst]
    rfl
  | some i =>
    have hi : i ∈ n.beginnings text := List.min?_mem hfirst
    have hway := (tracks_follow text.toArray n).finds (places_le text) hi (List.replicate n.groupCount none)
    obtain ⟨⟨j, g⟩, hg⟩ := Option.isSome_iff_exists.mp hway
    have hne : (n.beginnings text).isEmpty = false := by
      rw [List.isEmpty_eq_false_iff]
      exact List.ne_nil_of_mem hi
    simp only [Option.bind_eq_bind, Option.bind_some]
    rw [hg, hne]
    rfl

theorem matches_of_search? (h : n.search? text = some (i, j, g)) :
    n.Matches text.toArray i j ∧ j ≤ text.length ∧ g.length = n.groupCount := by
  obtain ⟨first, -, h⟩ := Option.bind_eq_some_iff.mp h
  obtain ⟨⟨last, groups⟩, hway, h⟩ := Option.bind_eq_some_iff.mp h
  cases h
  have htracks := tracks_follow text.toArray n
  obtain ⟨hlast, hlength⟩ := htracks.arrives hway
  exact ⟨htracks.related hway, places_le text _ hlast, hlength.trans List.length_replicate⟩

theorem agrees_regex (n : Node) : n.regex.Agrees := by
  intro text
  show (n.captures? text).isSome = n.isMatch text
  rw [captures?, Option.isSome_map, isSome_search?]

theorem findsAt_regex (n : Node) : n.regex.FindsAt fun text => (n.search? text).map fun s => (s.1, s.2.1) where
  bounds h := by
    obtain ⟨⟨i, j, g⟩, hsearch, h⟩ := Option.map_eq_some_iff.mp h
    cases h
    obtain ⟨hmatches, hj, -⟩ := matches_of_search? hsearch
    exact ⟨hmatches.le, hj⟩
  group_zero h := by
    obtain ⟨⟨i, j, g⟩, hsearch, h⟩ := Option.map_eq_some_iff.mp h
    cases h
    have hlength : 0 < g.length := by
      rw [(matches_of_search? hsearch).2.2]
      exact n.groupCount_pos
    refine ⟨i, j, Option.map_eq_some_iff.mpr ⟨_, hsearch, rfl⟩, ?_⟩
    rw [List.getElem?_map, List.getElem?_set_self hlength]
    rfl

end Node

theorem exists_node_of_compile {flags : Flags} {source : List Char} {r : Regex}
    (h : treeEngine.compile flags source = .ok r) : ∃ n : Node, r = n.regex := by
  change Node.regex <$> compileTree flags source = .ok r at h
  cases htree : compileTree flags source with
  | error e =>
    rw [htree] at h
    cases h
  | ok n =>
    rw [htree] at h
    cases h
    exact ⟨n, rfl⟩

end StreamParser.Regex
