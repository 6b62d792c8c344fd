/-!
# Byte lengths of character lists

A text is a list of characters; an offset into it counts bytes of its UTF-8 form. `dropBytes?`
answers only at a character boundary: it is `some rest` exactly when `rest` is left after a first
part of that many bytes.
-/

namespace StreamParser

def byteSize : List Char → Nat
  | [] => 0
  | c :: cs => c.utf8Size + byteSize cs

@[simp] theorem byteSize_nil : byteSize [] = 0 := rfl

@[simp] theorem byteSize_cons (c : Char) (cs : List Char) :
    byteSize (c :: cs) = c.utf8Size + byteSize cs := rfl

@[simp] theorem byteSize_append (a b : List Char) :
    byteSize (a ++ b) = byteSize a + byteSize b := by
  induction a with
  | nil => simp
  | cons c a ih => simp [ih, Nat.add_assoc]

/-- The text after its first `n` bytes; `none` past the end or inside a character. -/
def dropBytes? : Nat → List Char → Option (List Char)
  | 0, cs => some cs
  | _ + 1, [] => none
  | n + 1, c :: cs => if c.utf8Size ≤ n + 1 then dropBytes? (n + 1 - c.utf8Size) cs else none

@[simp] theorem dropBytes?_zero (cs : List Char) : dropBytes? 0 cs = some cs := by
  cases cs <;> rfl

@[simp] theorem dropBytes?_append (a b : List Char) :
    dropBytes? (byteSize a) (a ++ b) = some b := by
  induction a with
  | nil => simp
  | cons c a ih =>
    have pos := c.utf8Size_pos
    obtain ⟨k, hk⟩ : ∃ k, c.utf8Size + byteSize a = k + 1 := ⟨c.utf8Size + byteSize a - 1, by omega⟩
    have sub : k + 1 - c.utf8Size = byteSize a := by omega
    simp only [byteSize_cons, List.cons_append, hk, dropBytes?]
    rw [if_pos (by omega), sub, ih]

theorem dropBytes?_eq_some_iff {n : Nat} {cs rest : List Char} :
    dropBytes? n cs = some rest ↔ ∃ taken, cs = taken ++ rest ∧ byteSize taken = n := by
  constructor
  · intro h
    induction cs generalizing n with
    | nil =>
      cases n with
      | zero => exact ⟨[], by simpa using h, rfl⟩
      | succ n => simp [dropBytes?] at h
    | cons c cs ih =>
      cases n with
      | zero => exact ⟨[], by simpa using h, rfl⟩
      | succ n =>
        simp only [dropBytes?] at h
        split at h
        · obtain ⟨taken, rfl, hn⟩ := ih h
          exact ⟨c :: taken, rfl, by simp only [byteSize_cons]; omega⟩
        · simp at h
  · rintro ⟨taken, rfl, rfl⟩
    exact dropBytes?_append taken rest

end StreamParser
