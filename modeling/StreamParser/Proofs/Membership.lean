import Mathlib.Data.List.Basic
import StreamParser.Proofs.Alternatives

/-!
# Sets of characters

A set of characters is given by a text or by the ends of a range, and is tried character by character in
order. So the next character is looked up in it: what stands before its first occurrence is tried in vain,
and if it does not occur, the failure is that of the last character. A range holds the characters between
its ends in increasing order; between the numbers of two characters there may be numbers of none.
-/

namespace StreamParser

namespace Parser

/-! ### The characters of a range -/

theorem charOfNat_eq_some {n : Nat} {x : Char} :
    (if n.isValidChar then some (Char.ofNat n) else none) = some x ↔ x.toNat = n := by
  constructor
  · intro hx
    obtain ⟨hvalid, hx⟩ := Option.ite_none_right_eq_some.mp hx
    rw [← Option.some.inj hx, Char.ofNat, dif_pos hvalid]
    rfl
  · rintro rfl
    have hvalid : x.toNat.isValidChar := x.valid
    rw [if_pos hvalid, Char.ofNat_toNat]

theorem mem_charsFrom {first last x : Char} : x ∈ charsFrom first last ↔ first ≤ x ∧ x ≤ last := by
  have hle (a b : Char) : a ≤ b ↔ a.toNat ≤ b.toNat := Iff.rfl
  rw [hle, hle, charsFrom, List.mem_filterMap]
  constructor
  · rintro ⟨k, hk, hx⟩
    rw [List.mem_range] at hk
    rw [charOfNat_eq_some] at hx
    omega
  · rintro ⟨hfirst, hlast⟩
    refine ⟨x.toNat - first.toNat, List.mem_range.mpr (by omega), ?_⟩
    rw [charOfNat_eq_some, Nat.add_sub_cancel' hfirst]

theorem pairwise_charsFrom (first last : Char) : (charsFrom first last).Pairwise (· < ·) := by
  rw [charsFrom, List.pairwise_filterMap]
  apply List.pairwise_lt_range.imp
  intro j k hjk x hx y hy
  rw [charOfNat_eq_some] at hx hy
  show x.toNat < y.toNat
  omega

/-! ### Looking a character up -/

variable {σ : Type} {c : Context σ} {cs before after : List Char} {x y last : Char}

/-- On `c`, `p` looks among `cs`, in order, for the character that is next. -/
structure LooksUp (p : Parser σ Char) (cs : List Char) (c : Context σ) : Prop where
  succeeds_iff : p.Succeeds c ↔ ∃ y, c.head? = some y ∧ y ∈ cs
  /-- Each character before its first occurrence is logged as a mismatch and given up for the next. -/
  found {before after : List Char} {y : Char} (hcs : cs = before ++ y :: after) (hy : y ∉ before)
    (hhead : c.head? = some y) :
    p c = ⟨before.flatMap fun x => [.mismatch x y c.position, .fallback c.position],
      .ok (.success y (c.advance 1))⟩
  absent {before : List Char} {last : Char} (hcs : cs = before ++ [last])
    (hnone : ∀ y, c.head? = some y → y ∉ cs) :
    ∃ t e, char last c = ⟨t, .ok (.failure e c)⟩ ∧
      p c = ⟨(before.flatMap fun x => (char x c).trace ++ [.fallback c.position]) ++ t,
        .ok (.failure e c)⟩
  empty (hcs : cs = []) : p c = pure (c.fail .noAlternative)

theorem char_of_head (hc : c.Placed) (hx : c.head? = some x) :
    char x c = ⟨[], .ok (.success x (c.advance 1))⟩ := by
  obtain ⟨rest, hrest⟩ := List.head?_eq_some_iff.mp hx
  have h : c.remaining? = some (x :: rest) := by rw [Context.remaining?_of_placed hc, hrest]
  rw [← Context.consume_head_eq_advance h]
  exact char_self h

theorem char_of_other_head (hc : c.Placed) (hx : c.head? ≠ some x) :
    ∃ e, char x c = ⟨c.head?.toList.map (.mismatch x · c.position), .ok (.failure e c)⟩ :=
  char_of_head?_ne (Context.remaining?_of_placed hc) hx

theorem anyCharOf_of_others (hc : c.Placed) (hbefore : ∀ x ∈ before, c.head? ≠ some x)
    (hy : c.head? = some y ∨ after = []) :
    anyCharOf (before ++ y :: after) c =
      ⟨(before.flatMap fun x => (char x c).trace ++ [.fallback c.position]) ++ (char y c).trace,
        (char y c).result⟩ := by
  have hfails : ∀ q ∈ before.map char, q.Fails c := by
    intro q hq
    obtain ⟨x, hx, rfl⟩ := List.mem_map.mp hq
    obtain ⟨e, he⟩ := char_of_other_head hc (hbefore x hx)
    exact ⟨_, e, c, he⟩
  have hanswer : (char y).Succeeds c ∨ after.map char = ([] : List (Parser σ Char)) := by
    rcases hy with hhead | rfl
    · exact .inl ⟨_, _, _, char_of_head hc hhead⟩
    · exact .inr rfl
  rw [anyCharOf, List.map_append, List.map_cons, choice_of_failures hfails hanswer, fallbacks,
    List.flatMap_map]

theorem anyCharOf_found (hc : c.Placed) (hcs : cs = before ++ y :: after) (hy : y ∉ before)
    (hhead : c.head? = some y) :
    anyCharOf cs c = ⟨before.flatMap fun x => [.mismatch x y c.position, .fallback c.position],
      .ok (.success y (c.advance 1))⟩ := by
  have hbefore : ∀ x ∈ before, c.head? ≠ some x := by
    intro x hx hxhead
    obtain rfl : x = y := Option.some.inj (hxhead.symm.trans hhead)
    exact hy hx
  have hlogged : ∀ x ∈ before, (char x c).trace ++ [.fallback c.position] =
      [.mismatch x y c.position, .fallback c.position] := by
    intro x hx
    obtain ⟨e, he⟩ := char_of_other_head hc (hbefore x hx)
    rw [he, hhead]
    rfl
  rw [hcs, anyCharOf_of_others hc hbefore (.inl hhead), char_of_head hc hhead, List.append_nil,
    List.flatMap_congr hlogged]

theorem anyCharOf_absent (hc : c.Placed) (hcs : cs = before ++ [last])
    (hnone : ∀ y, c.head? = some y → y ∉ cs) :
    ∃ t e, char last c = ⟨t, .ok (.failure e c)⟩ ∧
      anyCharOf cs c = ⟨(before.flatMap fun x => (char x c).trace ++ [.fallback c.position]) ++ t,
        .ok (.failure e c)⟩ := by
  have hother : ∀ x ∈ cs, c.head? ≠ some x := fun x hx hhead => hnone x hhead hx
  subst hcs
  obtain ⟨e, he⟩ := char_of_other_head hc (hother last (by simp))
  have hrun := anyCharOf_of_others (y := last) hc (fun x hx => hother x (List.mem_append_left _ hx))
    (.inr rfl)
  rw [he] at hrun
  exact ⟨_, e, he, hrun⟩

theorem anyCharOf_succeeds_iff (hc : c.Placed) :
    (anyCharOf cs).Succeeds c ↔ ∃ y, c.head? = some y ∧ y ∈ cs := by
  constructor
  · rintro ⟨t, v, d, hrun⟩
    by_contra hnot
    have hnone : ∀ y, c.head? = some y → y ∉ cs := fun y hhead hy => hnot ⟨y, hhead, hy⟩
    rcases List.eq_nil_or_concat' cs with rfl | ⟨before, last, rfl⟩
    · cases hrun
    · obtain ⟨u, e, -, hfails⟩ := anyCharOf_absent hc rfl hnone
      cases hrun.symm.trans hfails
  · rintro ⟨y, hhead, hy⟩
    obtain ⟨before, after, hcs, hnot⟩ := List.eq_append_cons_of_mem hy
    exact ⟨_, _, _, anyCharOf_found hc hcs hnot hhead⟩

theorem looksUp_anyCharOf (hc : c.Placed) (cs : List Char) : LooksUp (anyCharOf cs) cs c where
  succeeds_iff := anyCharOf_succeeds_iff hc
  found := anyCharOf_found hc
  absent := anyCharOf_absent hc
  empty hcs := by
    subst hcs
    rfl

/-- Both kinds of sets look up the next character: among the characters of the text as they stand there, or
among all those between the ends of the range, each of them once and in order. -/
theorem character_set_looks_up (hc : c.Placed) :
    (∀ cs, LooksUp (anyCharOf cs) cs c) ∧
    ∀ first last, (charsFrom first last).Pairwise (· < ·) ∧
      (∀ x, x ∈ charsFrom first last ↔ first ≤ x ∧ x ≤ last) ∧
      LooksUp (anyCharIn first last) (charsFrom first last) c := by
  refine ⟨looksUp_anyCharOf hc, fun first last => ⟨pairwise_charsFrom first last, ?_, ?_⟩⟩
  · intro x
    exact mem_charsFrom
  · exact looksUp_anyCharOf hc (charsFrom first last)

/-- The first character behind those that are no numbers of characters, among some that occur twice and in a
range that begins before them. -/
theorem private_use_character_looked_up :
    let c := Context.start ['\ue000', 'x'] ()
    c.Placed ∧
    anyCharOf ['a', 'b', '\ue000', 'a', '\ue000'] c =
      ⟨[.mismatch 'a' '\ue000' c.position, .fallback c.position, .mismatch 'b' '\ue000' c.position,
        .fallback c.position], .ok (.success '\ue000' (c.advance 1))⟩ ∧
    anyCharIn '\ud7fe' '\ue001' c =
      ⟨[.mismatch '\ud7fe' '\ue000' c.position, .fallback c.position,
        .mismatch '\ud7ff' '\ue000' c.position, .fallback c.position],
        .ok (.success '\ue000' (c.advance 1))⟩ ∧
    ∃ e, char 'a' c = ⟨[.mismatch 'a' '\ue000' c.position], .ok (.failure e c)⟩ ∧
      anyCharOf ['a', 'b', 'a'] c =
        ⟨[.mismatch 'a' '\ue000' c.position, .fallback c.position, .mismatch 'b' '\ue000' c.position,
          .fallback c.position, .mismatch 'a' '\ue000' c.position], .ok (.failure e c)⟩ := by
  intro c
  have hc : c.Placed := by decide
  obtain ⟨htext, hrange⟩ := character_set_looks_up hc
  obtain ⟨-, -, hlooks⟩ := hrange '\ud7fe' '\ue001'
  have hchars : charsFrom '\ud7fe' '\ue001' = ['\ud7fe', '\ud7ff'] ++ '\ue000' :: ['\ue001'] := by
    decide +kernel
  have hsplit : ['a', 'b', '\ue000', 'a', '\ue000'] = ['a', 'b'] ++ '\ue000' :: ['a', '\ue000'] := rfl
  have hlast : ['a', 'b', 'a'] = ['a', 'b'] ++ ['a'] := rfl
  have hnone : ∀ y, c.head? = some y → y ∉ ['a', 'b', 'a'] := by
    intro y hy
    obtain rfl : '\ue000' = y := Option.some.inj hy
    decide
  obtain ⟨t, e, he, hrun⟩ := (htext _).absent hlast hnone
  obtain rfl : [.mismatch 'a' '\ue000' c.position] = t := congrArg Run.trace he
  exact ⟨hc, (htext _).found hsplit (by decide) rfl, hlooks.found hchars (by decide) rfl, e, he, hrun⟩

end Parser

end StreamParser
