import SiteServer.Text.Utf8

/-! # Slices of a text.

Places in a text are counted in bytes. A text can be cut only at a place between two characters, so a slice
from one place to another is there exactly when both are such places, in this order. -/

namespace SiteServer.Text

namespace Utf8

@[simp] theorem byteSize_nil : byteSize [] = 0 := rfl

@[simp] theorem byteSize_cons (c : Char) (rest : List Char) :
    byteSize (c :: rest) = (encodeChar c).length + byteSize rest := rfl

@[simp] theorem byteSize_append (front behind : List Char) :
    byteSize (front ++ behind) = byteSize front + byteSize behind := by
  induction front with
  | nil => simp
  | cons c front ih => rw [List.cons_append, byteSize_cons, byteSize_cons, ih, Nat.add_assoc]

theorem byteSize_eq_zero_iff {text : List Char} : byteSize text = 0 ↔ text = [] := by
  constructor
  · intro h
    exact List.eq_nil_of_length_eq_zero (Nat.le_zero.mp (h ▸ length_le_byteSize text))
  · rintro rfl
    rfl

end Utf8

open Utf8 (byteSize encodeChar)

def cutAt? : List Char → Nat → Option (List Char × List Char)
  | text, 0 => some ([], text)
  | [], _ + 1 => none
  | c :: rest, place + 1 =>
    if (encodeChar c).length ≤ place + 1 then
      (cutAt? rest (place + 1 - (encodeChar c).length)).map fun (front, behind) => (c :: front, behind)
    else none

def slice? (text : List Char) (start stop : Nat) : Option (List Char) := do
  let (front, _) ← cutAt? text stop
  let (_, part) ← cutAt? front start
  return part

variable {text front behind part : List Char}

theorem cutAt?_eq_some_iff {place : Nat} :
    cutAt? text place = some (front, behind) ↔ text = front ++ behind ∧ byteSize front = place := by
  fun_induction cutAt? text place generalizing front with
  | case1 text =>
      rw [Option.some.injEq, Prod.mk.injEq, Utf8.byteSize_eq_zero_iff]
      constructor
      · rintro ⟨rfl, rfl⟩
        exact ⟨rfl, rfl⟩
      · rintro ⟨rfl, rfl⟩
        exact ⟨rfl, rfl⟩
  | case2 place =>
      simp only [reduceCtorEq, false_iff, not_and, List.nil_eq_append_iff]
      rintro ⟨rfl, _⟩
      simp
  | case3 c rest place h ih =>
      simp only [Option.map_eq_some_iff, Prod.mk.injEq, Prod.exists]
      constructor
      · rintro ⟨inner, _, hcut, rfl, rfl⟩
        obtain ⟨rfl, hsize⟩ := ih.mp hcut
        refine ⟨rfl, ?_⟩
        rw [Utf8.byteSize_cons, hsize]
        omega
      · rintro ⟨htext, hsize⟩
        cases front with
        | nil => simp at hsize
        | cons d inner =>
            obtain ⟨rfl, rfl⟩ := List.cons.inj htext
            rw [Utf8.byteSize_cons] at hsize
            exact ⟨inner, behind, ih.mpr ⟨rfl, by omega⟩, rfl, rfl⟩
  | case4 c rest place h =>
      simp only [reduceCtorEq, false_iff, not_and]
      intro htext hsize
      cases front with
      | nil => simp at hsize
      | cons d inner =>
          obtain ⟨rfl, rfl⟩ := List.cons.inj htext
          rw [Utf8.byteSize_cons] at hsize
          omega

theorem slice?_eq_some_iff {start stop : Nat} :
    slice? text start stop = some part ↔
      ∃ front behind, text = front ++ (part ++ behind) ∧ byteSize front = start ∧
        byteSize front + byteSize part = stop := by
  simp only [slice?, Option.bind_eq_bind, Option.bind_eq_some_iff, Option.pure_def, Option.some.injEq,
    Prod.exists, cutAt?_eq_some_iff]
  constructor
  · rintro ⟨_, behind, ⟨rfl, hstop⟩, front, _, ⟨rfl, hstart⟩, rfl⟩
    rw [Utf8.byteSize_append] at hstop
    exact ⟨front, behind, List.append_assoc _ _ _, hstart, hstop⟩
  · rintro ⟨front, behind, rfl, hstart, hstop⟩
    refine ⟨front ++ part, behind, ⟨(List.append_assoc _ _ _).symm, ?_⟩, front, part, ⟨rfl, hstart⟩, rfl⟩
    rw [Utf8.byteSize_append, hstop]

end SiteServer.Text
