import StreamParser.Proofs.LongestMatch

/-!
# Group 0

The text of a match is a first part of what remains, and its groups come from a second search, in that part
alone. That search need not match all of the part: a source that was written for flags of its caller's can
close the group that it is enclosed in. So group 0 is the text of the match exactly if the part is matched from
its start to its end.
-/

namespace StreamParser

theorem take_drop_eq_self_iff {α : Type} {w : List α} {i j : Nat} (hij : i ≤ j) (hj : j ≤ w.length) :
    (w.take j).drop i = w ↔ i = 0 ∧ j = w.length := by
  constructor
  · intro h
    have hlength := congrArg List.length h
    rw [List.length_drop, List.length_take_of_le hj] at hlength
    omega
  · rintro ⟨rfl, rfl⟩
    rw [List.take_length, List.drop_zero]

namespace Parser

open Regex (treeEngine)

theorem exists_run_of_match? {σ : Type} {engine : Engine} {source text rest : List Char} {m : PatternMatch}
    (h : (Pattern.ofSource engine source).toOption.bind (·.match? text) = some (m, rest)) (s : σ) :
    ∃ p d, Pattern.ofSource engine source = .ok p ∧
      pattern p (Context.start text s) = ⟨[], .ok (.success m d)⟩ := by
  cases hp : Pattern.ofSource engine source with
  | error e =>
    rw [hp] at h
    cases h
  | ok p =>
    rw [hp] at h
    have hmatch : p.match? text = some (m, rest) := h
    obtain ⟨taken, hsplit, hne, -⟩ := Pattern.match?_split hmatch
    have hremaining := Context.remaining?_start text s
    have he : (Context.start text s).isEmpty = false := by
      rw [Context.isEmpty_eq_false_iff hremaining, hsplit]
      exact List.append_ne_nil_of_left_ne_nil hne rest
    exact ⟨p, _, rfl, pattern_of_some he hremaining hmatch hsplit⟩

/-- What a pattern takes is the text of its match, and this is group 0 if and only if the search for the groups
finds its match from the start of that text to the end. -/
theorem group_zero_is_text_iff {σ : Type} {p : Pattern} {find? : List Char → Option (Nat × Nat)}
    (hfinds : p.enclosed.FindsAt find?) {c d : Context σ} {t : List Event} {m : PatternMatch}
    (hrun : pattern p c = ⟨t, .ok (.success m d)⟩) :
    ∃ taken rest, c.remaining? = some (taken ++ rest) ∧ d = c.consume taken ∧ m.text = String.ofList taken ∧
      (m.groups[0]? = some (some m.text) ↔ find? taken = some (0, taken.length)) := by
  obtain ⟨taken, rest, hremaining, hmatch, rfl⟩ := pattern_eq_success hrun
  obtain ⟨taken', texts, hlongest, htexts, rfl⟩ := Pattern.match?_eq_some_iff.mp hmatch
  obtain rfl := List.append_cancel_right (Pattern.longest?_split hlongest).1
  obtain ⟨i, j, hfind, hzero⟩ := hfinds.group_zero htexts
  obtain ⟨hij, hj⟩ := hfinds.bounds hfind
  refine ⟨taken, rest, hremaining, rfl, rfl, ?_⟩
  have hgroup : (texts.map (·.map String.ofList))[0]? =
      some (some (String.ofList ((taken.take j).drop i))) := by
    rw [List.getElem?_map, hzero]
    rfl
  rw [hgroup, hfind, Option.some.injEq, Option.some.injEq, String.ofList_inj, take_drop_eq_self_iff hij hj,
    Option.some.injEq, Prod.mk.injEq]

theorem group_zero_is_text_of_alternation : ∃ p m d, Pattern.ofSource treeEngine "a|bc?".toList = .ok p ∧
    (∃ find?, p.enclosed.FindsAt find? ∧ find? ['b', 'c'] = some (0, 2)) ∧
    pattern p (Context.start "bcd".toList ()) = ⟨[], .ok (.success m d)⟩ ∧
    m.groups[0]? = some (some m.text) ∧ m.text = "bc" := by
  have hmatch : (Pattern.ofSource treeEngine "a|bc?".toList).toOption.bind (·.match? "bcd".toList) =
      some (⟨"bc", [some "bc"]⟩, ['d']) := by decide +kernel
  obtain ⟨p, d, hp, hrun⟩ := exists_run_of_match? hmatch ()
  obtain ⟨n, hn⟩ := Pattern.exists_node_of_ofSource hp
  have hfinds := n.findsAt_regex
  rw [← hn] at hfinds
  obtain ⟨taken, rest, -, -, htext, hzero⟩ := group_zero_is_text_iff hfinds hrun
  obtain rfl : ['b', 'c'] = taken := String.ofList_inj.mp htext
  exact ⟨p, _, d, hp, ⟨_, hfinds, hzero.mp rfl⟩, hrun, rfl, rfl⟩

/-- Under the flag that the caller sets, all from the hash sign on is a comment. Without it the
parentheses there close the group of the enclosure and open another. -/
theorem group_zero_is_not_text_under_verbose_flag :
    ∃ r p m d, treeEngine.compile { verbose := true } "a #)|(?:b".toList = .ok r ∧
      Pattern.ofSource treeEngine "a #)|(?:b".toList = .ok p ∧
      pattern p (Context.start "xb".toList ()) = ⟨[], .ok (.success m d)⟩ ∧
      m.text = "xb" ∧ m.groups = [some "b"] := by
  obtain ⟨r, hr⟩ : ∃ r, treeEngine.compile { verbose := true } "a #)|(?:b".toList = .ok r :=
    exists_ok_of_isOk (by decide +kernel)
  have hmatch : (Pattern.ofSource treeEngine "a #)|(?:b".toList).toOption.bind (·.match? "xb".toList) =
      some (⟨"xb", [some "b"]⟩, []) := by decide +kernel
  obtain ⟨p, d, hp, hrun⟩ := exists_run_of_match? hmatch ()
  exact ⟨r, p, _, d, hr, hp, hrun, rfl, rfl⟩

end Parser

end StreamParser
