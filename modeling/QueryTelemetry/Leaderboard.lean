/-!
# Bounded leaderboards

A leaderboard keeps the highest-scored entries offered to it, up to its capacity, by ascending
score and in order of arrival among equals. The first entry is the next to give way, and only
to a strictly higher score.
-/

set_option autoImplicit false

namespace QueryTelemetry

abbrev Capacity := { n : Nat // 0 < n }

def Capacity.ofInt? (n : Int) : Option Capacity :=
  if h : 0 < n then some ⟨n.toNat, by omega⟩ else none

theorem Capacity.of_int_none_iff (n : Int) : Capacity.ofInt? n = none ↔ n < 1 := by
  unfold Capacity.ofInt?
  split <;> simp <;> omega

structure Scored (α : Type) where
  score : Int
  item : α

structure Leaderboard (α : Type) where
  capacity : Capacity
  entries : List (Scored α)

namespace Leaderboard
variable {α : Type}

def defaultCapacity : Capacity := ⟨30, by decide⟩

def empty (capacity : Capacity) : Leaderboard α := ⟨capacity, []⟩

def place (e : Scored α) : List (Scored α) → List (Scored α)
  | [] => [e]
  | x :: r => if e.score < x.score then e :: x :: r else x :: place e r

def offer (b : Leaderboard α) (e : Scored α) : Bool × Leaderboard α :=
  if b.entries.length < b.capacity.val then (true, { b with entries := place e b.entries })
  else
    match b.entries with
    | [] => (false, b)
    | least :: r =>
      if least.score < e.score then (true, { b with entries := place e r }) else (false, b)

def put (b : Leaderboard α) (score : Int) (item : α) : Leaderboard α := (b.offer ⟨score, item⟩).2

def size (b : Leaderboard α) : Nat := b.entries.length

def minScore? (b : Leaderboard α) : Option Int := b.entries.head?.map Scored.score

def items (b : Leaderboard α) : List α := b.entries.map Scored.item

theorem place_mem (e x : Scored α) (xs : List (Scored α)) :
    x ∈ place e xs ↔ x = e ∨ x ∈ xs := by
  induction xs with
  | nil => simp [place]
  | cons y r ih =>
    unfold place; split
    · simp
    · simp only [List.mem_cons, ih, or_left_comm]

theorem offer_capacity (b : Leaderboard α) (e : Scored α) :
    (b.offer e).2.capacity = b.capacity := by
  unfold offer
  split
  · rfl
  · split
    · rfl
    · split <;> rfl

end Leaderboard

end QueryTelemetry
