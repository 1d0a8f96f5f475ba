/-!
# Lists with a cursor

A doubly linked list with one cursor, as container libraries in C offer it:
`first` and `next` move the cursor and return the item under it (`none` at the
end, where the cursor is back before the first item), `deleteCursor` removes
the item under the cursor and leaves the cursor on the item before it, and
`moveEnd` relinks the item under the cursor at the end.

`back` holds the items up to the cursor, nearest first, `post` the items after
it; `items` is the whole list. Two loops over the cursor are the reusable part:

* `seek p`: advance until an item satisfies `p` (`seek_some`, `seek_none`);
* `sweep p`: advance to the end, deleting every item that satisfies `p`
  (`items_sweep`: nothing is skipped, whatever is adjacent to a deleted item).

`seek_eq` and `sweep_eq` unfold them into `next` and `deleteCursor`.
-/
namespace Malamute.Core

structure CursorList (α : Type) where
  back : List α
  post : List α
  deriving DecidableEq, Repr

namespace CursorList
variable {α : Type}

def empty : CursorList α := ⟨[], []⟩

def items (l : CursorList α) : List α := l.back.reverse ++ l.post

def size (l : CursorList α) : Nat := l.items.length

/-- The cursor before the first item. -/
def reset (l : CursorList α) : CursorList α := ⟨[], l.items⟩

def next (l : CursorList α) : CursorList α × Option α :=
  match l.post with
  | [] => (l.reset, none)
  | x :: xs => (⟨x :: l.back, xs⟩, some x)

def first (l : CursorList α) : CursorList α × Option α := l.reset.next

/-- Append an item; the cursor goes back before the first item. -/
def addEnd (l : CursorList α) (x : α) : CursorList α := ⟨[], l.items ++ [x]⟩

/-- Remove the item under the cursor; the cursor moves to the previous one. -/
def deleteCursor (l : CursorList α) : CursorList α := ⟨l.back.tail, l.post⟩

/-- Remove and return the first item, wherever the cursor is. -/
def popFirst (l : CursorList α) : CursorList α × Option α :=
  match l.back with
  | [] => (⟨[], l.post.tail⟩, l.post.head?)
  | x :: xs => (⟨(x :: xs).dropLast, l.post⟩, (x :: xs).getLast?)

/-- Relink the item under the cursor at the end; the cursor stays on it. -/
def moveEnd (l : CursorList α) : CursorList α :=
  match l.back with
  | [] => l
  | x :: xs => ⟨x :: (xs.reverse ++ l.post).reverse, []⟩

/-- Advance until an item satisfies `p`. -/
def seekFrom (p : α → Bool) : List α → List α → CursorList α × Option α
  | back, [] => (⟨[], back.reverse⟩, none)
  | back, x :: xs => if p x then (⟨x :: back, xs⟩, some x) else seekFrom p (x :: back) xs

def seek (p : α → Bool) (l : CursorList α) : CursorList α × Option α := seekFrom p l.back l.post

/-- Advance to the end, deleting every item that satisfies `p`. -/
def sweepFrom (p : α → Bool) : List α → List α → CursorList α
  | back, [] => ⟨[], back.reverse⟩
  | back, x :: xs => if p x then sweepFrom p back xs else sweepFrom p (x :: back) xs

def sweep (p : α → Bool) (l : CursorList α) : CursorList α := sweepFrom p l.back l.post

/-! ## What the operations do to the items -/

@[simp] theorem items_empty : (empty : CursorList α).items = [] := rfl

@[simp] theorem items_mk_nil (xs : List α) : (⟨[], xs⟩ : CursorList α).items = xs := rfl

@[simp] theorem items_reset (l : CursorList α) : l.reset.items = l.items := rfl

@[simp] theorem items_addEnd (l : CursorList α) (x : α) : (l.addEnd x).items = l.items ++ [x] := rfl

@[simp] theorem items_next (l : CursorList α) : l.next.1.items = l.items := by
  unfold next
  split
  · rfl
  · rename_i x xs h; simp [items, h]

@[simp] theorem items_first (l : CursorList α) : l.first.1.items = l.items := by simp [first]

theorem first_eq (l : CursorList α) :
    l.first = match l.items with
      | [] => (⟨[], []⟩, none)
      | x :: xs => (⟨[x], xs⟩, some x) := by
  unfold first next
  cases h : l.items <;> simp [reset, items_mk_nil, h]

theorem popFirst_items (l : CursorList α) :
    l.popFirst.1.items = l.items.tail ∧ l.popFirst.2 = l.items.head? := by
  unfold popFirst items
  cases hb : l.back with
  | nil => simp
  | cons x xs =>
    have hne : (x :: xs).reverse ≠ [] := by simp
    refine ⟨?_, ?_⟩
    · simp only [List.tail_append_of_ne_nil hne, List.tail_reverse]
    · show (x :: xs).getLast? = _
      rw [List.head?_append, List.head?_reverse]
      cases h : (x :: xs).getLast? with
      | none => simp at h
      | some y => rfl

theorem items_moveEnd (l : CursorList α) {x : α} {xs : List α} (h : l.back = x :: xs) :
    l.moveEnd.items = xs.reverse ++ l.post ++ [x] := by
  simp [moveEnd, items, h]

/-! ## The loops -/

/-- `seek` is the loop `while (item && !p (item)) item = next ()`. -/
theorem seek_eq (p : α → Bool) (l : CursorList α) :
    seek p l = match l.next with
      | (l', none) => (l', none)
      | (l', some x) => if p x then (l', some x) else seek p l' := by
  unfold seek next
  cases h : l.post with
  | nil => simp [seekFrom, reset, items, h]
  | cons x xs => simp [seekFrom]

/-- `sweep` is the loop that deletes at the cursor and goes on with `next`. -/
theorem sweep_eq (p : α → Bool) (l : CursorList α) :
    sweep p l = match l.next with
      | (l', none) => l'
      | (l', some x) => sweep p (if p x then l'.deleteCursor else l') := by
  unfold sweep next
  cases h : l.post with
  | nil => simp [sweepFrom, reset, items, h]
  | cons x xs =>
    simp only [sweepFrom, deleteCursor]
    split <;> simp

theorem items_seekFrom (p : α → Bool) (back post : List α) :
    (seekFrom p back post).1.items = back.reverse ++ post := by
  induction post generalizing back with
  | nil => simp [seekFrom, items]
  | cons x xs ih =>
    simp only [seekFrom]
    split
    · simp [items]
    · rw [ih]; simp

@[simp] theorem items_seek (p : α → Bool) (l : CursorList α) : (seek p l).1.items = l.items :=
  items_seekFrom p l.back l.post

/-- Where a successful search leaves the cursor: on the first match. -/
theorem seek_some {p : α → Bool} {l l' : CursorList α} {x : α} (h : seek p l = (l', some x)) :
    ∃ pre suf, l.post = pre ++ x :: suf ∧ (∀ y ∈ pre, p y = false) ∧ p x = true ∧
      l' = ⟨x :: (pre.reverse ++ l.back), suf⟩ := by
  obtain ⟨back, post⟩ := l
  unfold seek at h
  simp only at h ⊢
  induction post generalizing back with
  | nil => simp [seekFrom] at h
  | cons y ys ih =>
    simp only [seekFrom] at h
    split at h
    · rename_i hy
      simp only [Prod.mk.injEq, Option.some.injEq] at h
      obtain ⟨rfl, rfl⟩ := h
      exact ⟨[], ys, rfl, by simp, hy, rfl⟩
    · rename_i hy
      obtain ⟨pre, suf, h1, h2, h3, h4⟩ := ih (y :: back) h
      refine ⟨y :: pre, suf, by simp [h1], ?_, h3, by simp [h4]⟩
      intro z hz
      rcases List.mem_cons.1 hz with rfl | hz
      · simpa using hy
      · exact h2 z hz

theorem mem_of_seek {p : α → Bool} {l l' : CursorList α} {x : α}
    (h : seek p l.reset = (l', some x)) : x ∈ l.items := by
  obtain ⟨pre, suf, hpost, -, -, -⟩ := seek_some h
  rw [show l.items = pre ++ x :: suf from hpost]
  simp

theorem seek_none {p : α → Bool} {l : CursorList α} (h : (seek p l).2 = none) :
    ∀ y ∈ l.post, p y = false := by
  obtain ⟨back, post⟩ := l
  unfold seek at h
  simp only at h ⊢
  induction post generalizing back with
  | nil => simp
  | cons y ys ih =>
    simp only [seekFrom] at h
    split at h
    · cases h
    · rename_i hy
      intro z hz
      rcases List.mem_cons.1 hz with rfl | hz
      · simpa using hy
      · exact ih (y :: back) h z hz

/-- **No item is skipped**: a sweep leaves exactly the items that fail `p`. -/
theorem items_sweep (p : α → Bool) (l : CursorList α) :
    (sweep p l).items = l.back.reverse ++ l.post.filter (fun x => !p x) := by
  obtain ⟨back, post⟩ := l
  unfold sweep
  simp only
  induction post generalizing back with
  | nil => simp [sweepFrom]
  | cons x xs ih =>
    simp only [sweepFrom]
    by_cases hx : p x
    · simp [hx, ih]
    · simp [hx, ih]

theorem items_sweep_reset (p : α → Bool) (l : CursorList α) :
    (sweep p l.reset).items = l.items.filter (fun x => !p x) := by
  simp [items_sweep, reset]

end CursorList
end Malamute.Core
