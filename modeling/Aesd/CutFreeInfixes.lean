import Mathlib.Data.List.Infix
import Mathlib.Data.List.Basic

/-! Parts of a list that avoid one element, the cut. A list that is made from a source by
    moving pieces that end in a cut, and by overwriting elements with it, shows no cut-free
    part that the source does not show. -/
namespace CutFreeInfixes
variable {α : Type*} {cut : α}

def MadeFrom (cut : α) (source xs : List α) : Prop :=
  ∀ part, part <:+: xs → cut ∉ part → part <:+: source

theorem infix_beside_cut {part before after : List α} (inside : part <:+: before ++ cut :: after)
    (free : cut ∉ part) : part <:+: before ∨ part <:+: after := by
  obtain ⟨front, back, split⟩ := inside
  rcases List.append_eq_append_iff.mp split with ⟨more, left, _⟩ | ⟨more, left, right⟩
  · exact Or.inl ⟨front, more, left.symm⟩
  · cases more with
    | nil =>
      rw [List.append_nil] at left
      exact Or.inl ⟨front, [], by rw [List.append_nil, left]⟩
    | cons first more =>
      obtain ⟨rfl, behind⟩ := List.cons.inj right
      rcases List.append_eq_append_iff.mp left with ⟨rest, _, reaches⟩ | ⟨rest, _, reaches⟩
      · exact absurd (by simp [reaches]) free
      · cases rest with
        | nil => exact absurd (by simp [← show _ = part from reaches]) free
        | cons other rest =>
          obtain ⟨rfl, within⟩ := List.cons.inj reaches
          exact Or.inr ⟨rest, back, by rw [behind, within]; rfl⟩

theorem madeFrom_self (source : List α) : MadeFrom cut source source := fun _ inside _ => inside

theorem madeFrom_infix {source xs ys : List α} (made : MadeFrom cut source xs) (inside : ys <:+: xs) :
    MadeFrom cut source ys :=
  fun part here free => made part (here.trans inside) free

theorem madeFrom_append {source front ys : List α} (first : MadeFrom cut source (front ++ [cut]))
    (second : MadeFrom cut source ys) : MadeFrom cut source (front ++ [cut] ++ ys) := by
  intro part inside free
  rw [List.append_assoc, List.singleton_append] at inside
  rcases infix_beside_cut inside free with left | right
  · exact first part (left.trans (List.prefix_append front [cut]).isInfix) free
  · exact second part right free

theorem madeFrom_overwrite {source front back : List α} {x : α}
    (made : MadeFrom cut source (front ++ x :: back)) :
    MadeFrom cut source (front ++ cut :: back) := by
  intro part inside free
  rcases infix_beside_cut inside free with left | right
  · exact made part (left.trans (List.prefix_append front (x :: back)).isInfix) free
  · have behind : back <:+: front ++ x :: back := ⟨front ++ [x], [], by simp⟩
    exact made part (right.trans behind) free

theorem madeFrom_padded (source : List α) (count : Nat) :
    MadeFrom cut source (source ++ List.replicate count cut) := by
  induction count with
  | zero =>
    rw [List.replicate_zero, List.append_nil]
    exact madeFrom_self source
  | succ count ih =>
    intro part inside free
    rw [List.replicate_succ', ← List.append_assoc] at inside
    rcases infix_beside_cut inside free with left | right
    · exact ih part left free
    · rw [List.infix_nil.mp right]
      exact List.nil_infix

end CutFreeInfixes
