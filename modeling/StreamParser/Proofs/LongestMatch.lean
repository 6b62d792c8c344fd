import StreamParser.Proofs.Alternatives
import StreamParser.Proofs.CaptureSearch
import StreamParser.Proofs.Leaf

/-!
# The longest match

A pattern tries every first part of the text but the empty one, and the last that matches is the longest, also
where shorter ones in between do not match. Its groups are then searched for in that part alone; an engine
whose searches agree finds them there, since the part matches.
-/

namespace StreamParser

theorem getLast?_filter_range {P : Nat → Bool} {n k : Nat} (h : ((List.range n).filter P).getLast? = some k) :
    k < n ∧ P k = true ∧ ∀ j < n, P j = true → j ≤ k := by
  obtain ⟨before, hbefore⟩ := List.getLast?_eq_some_iff.mp h
  have hmem (j : Nat) : j ∈ before ++ [k] ↔ j < n ∧ P j = true := by
    rw [← hbefore, List.mem_filter, List.mem_range]
  have hsorted : (before ++ [k]).Pairwise (· < ·) := by
    rw [← hbefore]
    exact List.pairwise_lt_range.filter P
  obtain ⟨hk, hpass⟩ := (hmem k).mp (by simp)
  refine ⟨hk, hpass, fun j hj hpassj => ?_⟩
  rcases List.mem_append.mp ((hmem j).mpr ⟨hj, hpassj⟩) with hmemj | hlast
  · exact Nat.le_of_lt ((List.pairwise_append.mp hsorted).2.2 j hmemj k (List.mem_singleton_self k))
  · exact Nat.le_of_eq (List.mem_singleton.mp hlast)

namespace Pattern

variable {p : Pattern} {text taken rest q : List Char}

/-- `taken` is the longest first part of the text that is not empty and matches. -/
structure LongestMatch (p : Pattern) (text taken : List Char) : Prop where
  begins : taken <+: text
  ne_nil : taken ≠ []
  isMatch : p.enclosed.isMatch taken = true
  length_le : ∀ q, q <+: text → p.enclosed.isMatch q = true → q.length ≤ taken.length

theorem LongestMatch.unique (h : p.LongestMatch text taken) (hq : p.LongestMatch text q) : q = taken := by
  have hlength := Nat.le_antisymm (h.length_le q hq.begins hq.isMatch)
    (hq.length_le taken h.begins h.isMatch)
  exact (List.prefix_of_prefix_length_le hq.begins h.begins (Nat.le_of_eq hlength)).eq_of_length hlength

theorem longestMatch_iff : p.LongestMatch text taken ↔
    taken <+: text ∧ taken ≠ [] ∧ p.enclosed.isMatch taken = true ∧
      ∀ k < text.length + 1, p.enclosed.isMatch (text.take k) = true → k ≤ taken.length := by
  constructor
  · rintro ⟨hbegins, hne, hmatch, hle⟩
    refine ⟨hbegins, hne, hmatch, fun k hk hk' => ?_⟩
    have hlength := hle _ (List.take_prefix k text) hk'
    rwa [List.length_take_of_le (Nat.le_of_lt_succ hk)] at hlength
  · rintro ⟨hbegins, hne, hmatch, hle⟩
    refine ⟨hbegins, hne, hmatch, fun q hq hqmatch => ?_⟩
    rw [List.prefix_iff_eq_take.mp hq] at hqmatch
    exact hle q.length (Nat.lt_succ_of_le hq.length_le) hqmatch

instance : Decidable (p.LongestMatch text taken) := decidable_of_iff' _ longestMatch_iff

theorem longest?_eq (p : Pattern) (text : List Char) : p.longest? text =
    (((List.range text.length).filter fun k => p.enclosed.isMatch (text.take (k + 1))).getLast?).map
      fun k => text.splitAt (k + 1) := by
  rw [longest?, List.filter_map, List.getLast?_map]
  congr 3
  funext k
  rw [Function.comp_apply, List.splitAt_eq]

theorem isMatch_of_longest? (h : p.longest? text = some (taken, rest)) : p.enclosed.isMatch taken = true :=
  (List.mem_filter.mp (List.mem_of_getLast? h)).2

theorem longestMatch_of_longest? (h : p.longest? text = some (taken, rest)) : p.LongestMatch text taken := by
  obtain ⟨hsplit, hne⟩ := longest?_split h
  refine ⟨⟨rest, hsplit.symm⟩, hne, isMatch_of_longest? h, fun q hq hqmatch => ?_⟩
  rw [longest?_eq] at h
  obtain ⟨k, hk, hparts⟩ := Option.map_eq_some_iff.mp h
  rw [List.splitAt_eq, Prod.mk.injEq] at hparts
  obtain ⟨hlt, -, hmax⟩ := getLast?_filter_range hk
  rw [← hparts.1, List.length_take_of_le hlt]
  cases hn : q.length with
  | zero => exact Nat.zero_le _
  | succ j =>
    rw [List.prefix_iff_eq_take.mp hq, hn] at hqmatch
    have hj : j < text.length := Nat.lt_of_lt_of_le (by omega) hq.length_le
    exact Nat.succ_le_succ (hmax j hj hqmatch)

theorem not_isMatch_of_longest?_none (h : p.longest? text = none) (hq : q <+: text) (hne : q ≠ []) :
    ¬ p.enclosed.isMatch q = true := by
  rw [longest?_eq, Option.map_eq_none_iff, List.getLast?_eq_none_iff, List.filter_eq_nil_iff] at h
  obtain ⟨j, hj⟩ := Nat.exists_eq_succ_of_ne_zero (mt List.length_eq_zero_iff.mp hne)
  have hlt : j < text.length := Nat.lt_of_lt_of_le (by omega) hq.length_le
  rw [List.prefix_iff_eq_take.mp hq, hj]
  exact h j (List.mem_range.mpr hlt)

theorem match?_eq_some_of_longest? (hagrees : p.enclosed.Agrees) (h : p.longest? text = some (taken, rest)) :
    ∃ groups, p.enclosed.captures? taken = some groups ∧
      p.match? text = some (⟨String.ofList taken, groups.map (·.map String.ofList)⟩, rest) := by
  have hfound : (p.enclosed.captures? taken).isSome := (hagrees taken).trans (isMatch_of_longest? h)
  obtain ⟨groups, hgroups⟩ := Option.isSome_iff_exists.mp hfound
  exact ⟨groups, hgroups, match?_eq_some_iff.mpr ⟨taken, groups, h, hgroups, rfl⟩⟩

end Pattern

/-! ### What the tree engine compiles -/

theorem exists_ok_of_isOk {ε α : Type} {x : Except ε α} (h : x.isOk = true) : ∃ a, x = .ok a := by
  cases x with
  | error e => cases h
  | ok a => exact ⟨a, rfl⟩

theorem Pattern.exists_node_of_ofSource {source : List Char} {p : Pattern}
    (h : Pattern.ofSource Regex.treeEngine source = .ok p) : ∃ n : Regex.Node, p.enclosed = n.regex := by
  unfold Pattern.ofSource at h
  split at h
  · rename_i r hr
    cases h
    exact Regex.exists_node_of_compile hr
  · split at h
    · rename_i r hr
      cases h
      exact Regex.exists_node_of_compile hr
    · cases h

namespace Parser

open Regex (treeEngine)

variable {σ : Type} {c : Context σ} {text taken rest : List Char} {p : Pattern}

theorem pattern_of_longest? (hagrees : p.enclosed.Agrees) (h : c.remaining? = some text)
    (hlongest : p.longest? text = some (taken, rest)) :
    ∃ groups, p.enclosed.captures? taken = some groups ∧ pattern p c =
      pure (.success ⟨String.ofList taken, groups.map (·.map String.ofList)⟩ (c.advance taken.length)) := by
  obtain ⟨groups, hgroups, hmatch⟩ := Pattern.match?_eq_some_of_longest? hagrees hlongest
  obtain ⟨rfl, hne⟩ := Pattern.longest?_split hlongest
  have he : c.isEmpty = false :=
    (Context.isEmpty_eq_false_iff h).mpr (List.append_ne_nil_of_left_ne_nil hne rest)
  refine ⟨groups, hgroups, ?_⟩
  rw [pattern_of_some he h hmatch rfl, Context.consume_eq_advance h]

theorem pattern_of_longest?_none (h : c.remaining? = some text) (hnone : p.longest? text = none) :
    pattern p c = pure (c.fail (if text = [] then .patternAtEnd (String.ofList p.source)
      else .patternMismatch (String.ofList text) (String.ofList p.source))) := by
  by_cases hnil : text = []
  · rw [if_pos hnil, pattern_of_isEmpty ((Context.isEmpty_iff h).mpr hnil)]
  · have he : c.isEmpty = false := (Context.isEmpty_eq_false_iff h).mpr hnil
    have hmatch : p.match? text = none := by
      rw [Pattern.match?, hnone]
      rfl
    rw [if_neg hnil, pattern_of_none he h hmatch]

/-- A pattern whose searches agree succeeds if some first part of the text that is not empty matches. It then
takes the longest such part, with the groups found in it, and the next context is as many characters further;
else it fails where it stands. -/
theorem pattern_takes_longest_match {p : Pattern} (hagrees : p.enclosed.Agrees) (h : c.remaining? = some text) :
    ((pattern p).Succeeds c ↔ ∃ q, q <+: text ∧ q ≠ [] ∧ p.enclosed.isMatch q = true) ∧
    ((pattern p).Succeeds c → ∃ taken groups, p.LongestMatch text taken ∧
      p.enclosed.captures? taken = some groups ∧ pattern p c =
        pure (.success ⟨String.ofList taken, groups.map (·.map String.ofList)⟩ (c.advance taken.length))) ∧
    (¬ (pattern p).Succeeds c → pattern p c =
      pure (c.fail (if text = [] then .patternAtEnd (String.ofList p.source)
        else .patternMismatch (String.ofList text) (String.ofList p.source)))) := by
  cases hlongest : p.longest? text with
  | none =>
    have hfails := pattern_of_longest?_none h hlongest
    have hnot : ¬ (pattern p).Succeeds c := by
      rintro ⟨t, v, d, hrun⟩
      cases hfails.symm.trans hrun
    refine ⟨?_, fun hs => absurd hs hnot, fun _ => hfails⟩
    constructor
    · exact fun hs => absurd hs hnot
    · rintro ⟨q, hq, hne, hmatch⟩
      exact absurd hmatch (Pattern.not_isMatch_of_longest?_none hlongest hq hne)
  | some parts =>
    obtain ⟨taken, rest⟩ := parts
    have hmatch := Pattern.longestMatch_of_longest? hlongest
    obtain ⟨groups, hgroups, hrun⟩ := pattern_of_longest? hagrees h hlongest
    have hs : (pattern p).Succeeds c := ⟨_, _, _, hrun⟩
    refine ⟨?_, fun _ => ⟨taken, groups, hmatch, hgroups, hrun⟩, fun hnot => absurd hs hnot⟩
    exact ⟨fun _ => ⟨taken, hmatch.begins, hmatch.ne_nil, hmatch.isMatch⟩, fun _ => hs⟩

/-- Between the two first parts that match there is one that does not, and in the other text only the empty
one would match. -/
theorem nullable_pattern_takes_longest_match :
    let c := Context.start ['é', 'a', 'b', 'c'] ()
    let d := Context.start ['c', 'é'] ()
    c.remaining? = some ['é', 'a', 'b', 'c'] ∧ d.remaining? = some ['c', 'é'] ∧
    ∃ p, Pattern.ofSource treeEngine "x*|(é)(?:ab)?(z)?".toList = .ok p ∧
      p.enclosed.Agrees ∧ p.enclosed.isMatch ['é'] = true ∧ p.enclosed.isMatch ['é', 'a'] = false ∧
      pattern p c = pure (.success ⟨"éab", [some "éab", some "é", none]⟩ (c.advance 3)) ∧
      p.enclosed.isMatch [] = true ∧
      pattern p d = pure (d.fail (.patternMismatch "cé" (String.ofList p.source))) := by
  intro c d
  have hc : c.remaining? = some ['é', 'a', 'b', 'c'] := rfl
  have hd : d.remaining? = some ['c', 'é'] := rfl
  obtain ⟨p, hp⟩ : ∃ p, Pattern.ofSource treeEngine "x*|(é)(?:ab)?(z)?".toList = .ok p :=
    exists_ok_of_isOk (by decide +kernel)
  have hsearch : (Pattern.ofSource treeEngine "x*|(é)(?:ab)?(z)?".toList).toOption.any (fun p =>
      p.enclosed.isMatch ['é'] && !p.enclosed.isMatch ['é', 'a'] && p.enclosed.isMatch [] &&
      decide (p.LongestMatch ['é', 'a', 'b', 'c'] ['é', 'a', 'b']) &&
      p.enclosed.captures? ['é', 'a', 'b'] == some [some ['é', 'a', 'b'], some ['é'], none] &&
      !p.enclosed.isMatch ['c'] && !p.enclosed.isMatch ['c', 'é']) = true := by
    decide +kernel
  simp only [hp, Except.toOption, Option.any_some, Bool.and_eq_true, Bool.not_eq_true', beq_iff_eq,
    decide_eq_true_eq] at hsearch
  obtain ⟨⟨⟨⟨⟨⟨hshort, hgap⟩, hempty⟩, hlongest⟩, hgroups⟩, hone⟩, htwo⟩ := hsearch
  obtain ⟨n, hn⟩ := Pattern.exists_node_of_ofSource hp
  have hagrees : p.enclosed.Agrees := by
    rw [hn]
    exact n.agrees_regex
  obtain ⟨hmatches, hfound, -⟩ := pattern_takes_longest_match hagrees hc
  obtain ⟨taken, groups, htaken, htexts, hrun⟩ :=
    hfound (hmatches.mpr ⟨['é'], List.prefix_append ['é'] _, List.cons_ne_nil _ _, hshort⟩)
  obtain rfl := hlongest.unique htaken
  rw [hgroups] at htexts
  cases htexts
  obtain ⟨hmatches', -, hfails⟩ := pattern_takes_longest_match hagrees hd
  have hnot : ¬ (pattern p).Succeeds d := by
    intro hs
    obtain ⟨q, hq, hne, hmatch⟩ := hmatches'.mp hs
    rcases List.prefix_cons_iff.mp hq with rfl | ⟨q', rfl, hq'⟩
    · exact hne rfl
    · rcases List.prefix_cons_iff.mp hq' with rfl | ⟨q'', rfl, hq''⟩
      · exact Bool.false_ne_true (hone.symm.trans hmatch)
      · obtain rfl := List.prefix_nil.mp hq''
        exact Bool.false_ne_true (htwo.symm.trans hmatch)
  exact ⟨hc, hd, p, hp, hagrees, hshort, hgap, hrun, hempty, hfails hnot⟩

end Parser

end StreamParser
