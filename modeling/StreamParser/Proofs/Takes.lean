import StreamParser.Proofs.Depth

/-!
# Reading what is written

`p.Takes text v rest` says that `p`, wherever `text` and `rest` remain, reads `text` as `v` and leaves `rest`;
nothing but offset and position changes. `p.Refuses text` says that `p` fails wherever `text` remains. One
lemma for each parser and combinator says what it takes or refuses, so that a written form is read back
part by part: what stands after a part is the text of the parts that follow it.
-/

namespace StreamParser

namespace Parser

variable {σ α β γ : Type}

def Takes (p : Parser σ α) (text : List Char) (v : α) (rest : List Char) : Prop :=
  ∀ ⦃c : Context σ⦄, c.remaining? = some (text ++ rest) →
    ∃ t, p c = ⟨t, .ok (.success v (c.consume text))⟩

def Refuses (p : Parser σ α) (text : List Char) : Prop :=
  ∀ ⦃c : Context σ⦄, c.remaining? = some text → ∃ t e d, p c = ⟨t, .ok (.failure e d)⟩

variable {p q : Parser σ α} {r : Parser σ β} {a b text rest : List Char} {v : α} {w : β} {x : Char}

namespace Refuses

theorem char (h : text.head? ≠ some x) : (char x : Parser σ Char).Refuses text := by
  intro c hc
  obtain ⟨e, he⟩ := char_of_head?_ne hc h
  exact ⟨_, e, c, he⟩

theorem or (hp : p.Refuses text) (hq : q.Refuses text) : (or p q).Refuses text := by
  intro c hc
  obtain ⟨t, e, d, ha⟩ := hp hc
  obtain ⟨u, e', d', hb⟩ := hq hc
  exact ⟨_, e', d', or_eq_ok.mpr (.inr ⟨e, d, t, u, ha, hb, rfl⟩)⟩

theorem foldl_or {ps : List (Parser σ α)} (hp : p.Refuses text) (hps : ∀ q ∈ ps, q.Refuses text) :
    (ps.foldl Parser.or p).Refuses text := by
  induction ps generalizing p with
  | nil => exact hp
  | cons q ps ih =>
    obtain ⟨hq, hrest⟩ := List.forall_mem_cons.mp hps
    exact ih (hp.or hq) hrest

theorem map {f : α → β} (hp : p.Refuses text) : (map f p).Refuses text := by
  intro c hc
  obtain ⟨t, e, d, ha⟩ := hp hc
  exact ⟨t, e, d, map_eq_ok.mpr ⟨_, ha, rfl⟩⟩

theorem pair_first (hp : p.Refuses text) : (pair p r).Refuses text := by
  intro c hc
  obtain ⟨t, e, d, ha⟩ := hp hc
  exact ⟨t, e, c, pair_eq_ok.mpr (.inl ⟨e, d, ha, rfl⟩)⟩

theorem pair_second (hp : p.Takes a v b) (hr : r.Refuses b) : (pair p r).Refuses (a ++ b) := by
  intro c hc
  obtain ⟨t, ha⟩ := hp hc
  obtain ⟨u, e, d, hb⟩ := hr (Context.remaining?_consume hc)
  exact ⟨_, e, c, pair_eq_ok.mpr (.inr ⟨t, v, _, u, ha, rfl, .inl ⟨e, d, hb, rfl⟩⟩)⟩

theorem preceded_first (hp : p.Refuses text) : (preceded p r).Refuses text := hp.pair_first.map

theorem preceded_second (hp : p.Takes a v b) (hr : r.Refuses b) : (preceded p r).Refuses (a ++ b) :=
  (pair_second hp hr).map

theorem andThen_first (hp : p.Refuses text) : (andThen p r).Refuses text := by
  intro c hc
  obtain ⟨t, e, d, ha⟩ := hp hc
  exact ⟨t, e, d, andThen_eq_ok.mpr (.inl ⟨e, d, ha, rfl⟩)⟩

theorem between_left {s : Parser σ γ} (hp : p.Refuses text) : (between p r s).Refuses text :=
  hp.andThen_first.map

theorem literal {l : String} (hne : l.toList ≠ []) (h : text.head? ≠ l.toList.head?) :
    (literal l : Parser σ String).Refuses text := by
  obtain ⟨x, cs, hl⟩ := List.exists_cons_of_ne_nil hne
  rw [hl, List.head?_cons] at h
  have hchars : (sequence (l.toList.map Parser.char) : Parser σ (List Char)).Refuses text := by
    rw [hl]
    exact (char h).andThen_first.map
  exact hchars.map

end Refuses

namespace Takes

theorem char (x : Char) (rest : List Char) : (char x : Parser σ Char).Takes [x] x rest := by
  intro c hc
  exact ⟨[], char_self hc⟩

theorem charsUntil {run : List Char} (hne : run ≠ []) (hrun : x ∉ run)
    (hrest : ∀ y ∈ rest.head?, y = x) :
    (charsUntil x : Parser σ String).Takes run (String.ofList run) rest := by
  intro c hc
  have hwithout : without x (run ++ rest) = run := without_append hrun hrest
  have heq := charsUntil_eq (x := x) hc
  rw [hwithout, if_neg hne] at heq
  exact ⟨_, heq⟩

theorem skipSpaces (n : Nat) (h : rest.head? ≠ some ' ') :
    (skipSpaces : Parser σ Unit).Takes (List.replicate n ' ') () rest := by
  intro c hc
  have hstop : rest.takeWhile (· = ' ') = [] := by
    cases rest with
    | nil => rfl
    | cons y rest =>
      have hy : y ≠ ' ' := by
        intro hy
        exact h (congrArg some hy)
      exact List.takeWhile_cons_of_neg (by simpa using hy)
  have hspaces : (List.replicate n ' ' ++ rest).takeWhile (· = ' ') = List.replicate n ' ' := by
    rw [List.takeWhile_append_of_pos (by simp), hstop, List.append_nil]
  have heq := skipSpaces_eq hc
  rw [hspaces] at heq
  exact ⟨[], heq⟩

theorem endOfStream : (endOfStream : Parser σ Unit).Takes [] () [] := by
  intro c hc
  refine ⟨[], ?_⟩
  rw [Context.consume_nil]
  exact endOfStream_nil hc

theorem just (v : α) (rest : List Char) : (just v : Parser σ α).Takes [] v rest := by
  intro c _
  refine ⟨[], ?_⟩
  rw [Context.consume_nil]
  rfl

theorem map {f : α → β} (hp : p.Takes text v rest) : (map f p).Takes text (f v) rest := by
  intro c hc
  obtain ⟨t, ha⟩ := hp hc
  exact ⟨t, map_eq_ok.mpr ⟨_, ha, rfl⟩⟩

theorem or_first (hp : p.Takes text v rest) : (or p q).Takes text v rest := by
  intro c hc
  obtain ⟨t, ha⟩ := hp hc
  exact ⟨t, or_eq_ok.mpr (.inl ⟨v, _, ha, rfl⟩)⟩

theorem or_second (hp : p.Refuses (text ++ rest)) (hq : q.Takes text v rest) :
    (or p q).Takes text v rest := by
  intro c hc
  obtain ⟨t, e, d, ha⟩ := hp hc
  obtain ⟨u, hb⟩ := hq hc
  exact ⟨_, or_eq_ok.mpr (.inr ⟨e, d, t, u, ha, hb, rfl⟩)⟩

theorem foldl_or (hp : p.Takes text v rest) (ps : List (Parser σ α)) :
    (ps.foldl or p).Takes text v rest := by
  induction ps generalizing p with
  | nil => exact hp
  | cons q ps ih => exact ih hp.or_first

theorem choice (before after : List (Parser σ α)) (hbefore : ∀ q ∈ before, q.Refuses (text ++ rest))
    (hp : p.Takes text v rest) : (choice (before ++ p :: after)).Takes text v rest := by
  cases before with
  | nil => exact foldl_or hp after
  | cons q before =>
    obtain ⟨hq, hrest⟩ := List.forall_mem_cons.mp hbefore
    have hwins := foldl_or (or_second (hq.foldl_or hrest) hp) after
    rwa [← List.foldl_cons, ← List.foldl_append] at hwins

/-- What one part leaves is the text of the next. -/
theorem pair (hp : p.Takes a v (b ++ rest)) (hr : r.Takes b w rest) :
    (pair p r).Takes (a ++ b) (v, w) rest := by
  intro c hc
  rw [List.append_assoc] at hc
  obtain ⟨t, ha⟩ := hp hc
  obtain ⟨u, hb⟩ := hr (Context.remaining?_consume hc)
  rw [Context.consume_append]
  exact ⟨_, pair_eq_ok.mpr (.inr ⟨t, v, _, u, ha, rfl, .inr ⟨w, _, hb, rfl⟩⟩)⟩

theorem andThen (hp : p.Takes a v (b ++ rest)) (hr : r.Takes b w rest) :
    (andThen p r).Takes (a ++ b) (v, w) rest := by
  intro c hc
  rw [List.append_assoc] at hc
  obtain ⟨t, ha⟩ := hp hc
  obtain ⟨u, hb⟩ := hr (Context.remaining?_consume hc)
  rw [Context.consume_append]
  exact ⟨_, andThen_eq_ok.mpr (.inr ⟨t, v, _, u, _, ha, hb, rfl, rfl⟩)⟩

theorem terminated (hp : p.Takes a v (b ++ rest)) (hr : r.Takes b w rest) :
    (terminated p r).Takes (a ++ b) v rest := (pair hp hr).map

theorem preceded (hp : p.Takes a v (b ++ rest)) (hr : r.Takes b w rest) :
    (preceded p r).Takes (a ++ b) w rest := (pair hp hr).map

theorem lift₂ {f : α → β → γ} (hp : p.Takes a v (b ++ rest)) (hr : r.Takes b w rest) :
    (lift₂ f p r).Takes (a ++ b) (f v w) rest := (pair hp hr).map

theorem between {s : Parser σ γ} {z : γ} {d : List Char} (hp : p.Takes a v (b ++ d ++ rest))
    (hr : r.Takes b w (d ++ rest)) (hs : s.Takes d z rest) :
    (between p r s).Takes (a ++ (b ++ d)) w rest := (andThen hp (terminated hr hs)).map

theorem literal (l : String) (rest : List Char) :
    (literal l : Parser σ String).Takes l.toList l rest := by
  have hchars (cs : List Char) :
      (sequence (cs.map Parser.char) : Parser σ (List Char)).Takes cs cs rest := by
    induction cs with
    | nil => exact just [] rest
    | cons x cs ih => exact (andThen (char x (cs ++ rest)) ih).map
  have hliteral : (Parser.literal l : Parser σ String).Takes l.toList (String.ofList l.toList) rest :=
    (hchars l.toList).map
  rwa [String.ofList_toList] at hliteral

theorem many_nil (hp : p.Refuses rest) : (many p).Takes [] [] rest := by
  intro c hc
  obtain ⟨t, e, d, ha⟩ := hp hc
  refine ⟨t, ?_⟩
  rw [Context.consume_nil]
  exact many_of_failure ha

theorem many_cons {vs : List α} (ha : a ≠ []) (hp : p.Takes a v (b ++ rest))
    (hrest : (many p).Takes b vs rest) : (many p).Takes (a ++ b) (v :: vs) rest := by
  intro c hc
  rw [List.append_assoc] at hc
  obtain ⟨t, hround⟩ := hp hc
  obtain ⟨u, hrounds⟩ := hrest (Context.remaining?_consume hc)
  rw [Context.consume_append]
  exact ⟨_, many_of_consume hc ha hround hrounds⟩

end Takes

end Parser

end StreamParser
