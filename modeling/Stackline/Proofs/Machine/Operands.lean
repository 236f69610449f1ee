import Stackline.Proofs.Machine.Bounds
import Stackline.Proofs.Machine.Call

/-!
# Operand stacks are bounded lists

Seen from its bottom, an operand stack is a list of values that never gets longer than
its limit.  Values come and go at its end: one at a time, or several by cutting the list
at an index and turning the end around.  `BoundedList` is this list, with the bound in
its type.

A stack and the list that it shows answer every request alike and go on showing each
other, so they do along every sequence of requests.  To take several values off is to
take off one after the other, and it undoes as many pushes.
-/

namespace Stackline

variable {β : Type}

/-- Serves requests one after the other: the answers, and what is left in the end. -/
def serveAll {σ ρ α : Type} (serve : σ → ρ → α × σ) (s : σ) : List ρ → List α × σ
  | [] => ([], s)
  | request :: rest =>
    let served := serve s request
    let others := serveAll serve served.2 rest
    (served.1 :: others.1, others.2)

/-! ## Requests to a stack -/

namespace Stack

/-- One request to an operand stack: to act on it, or to show its top value. -/
inductive Request (β : Type) where
  | act (action : Action β)
  | peek

/-- The values that a request hands out, the top one first. -/
abbrev Answer (β : Type) := Except Fault (List (Value β))

/-- What an action is answered with. -/
def answer (s : Stack β) : Action β → Answer β
  | .push v => (s.push v).map fun _ => []
  | .pop => s.pop.map fun popped => [popped.1]
  | .dup => s.dup.map fun _ => []
  | .popMany n => (s.popMany n).map Prod.fst
  | .clear => .ok []

/-- Serves one request: the answer, and the stack after it. -/
def serve (s : Stack β) : Request β → Answer β × Stack β
  | .act action => (s.answer action, s.act action)
  | .peek => (s.peek.map fun v => [v], s)

/-- The values on the stack, the bottom one first. -/
def contents (s : Stack β) : List (Value β) :=
  s.items.reverse

end Stack

/-! ## Bounded lists -/

/-- A list of no more than `limit` values, the bottom one first. -/
structure BoundedList (β : Type) (limit : Nat) where
  values : List (Value β)
  length_le : values.length ≤ limit

namespace BoundedList

variable {limit : Nat}

def empty : BoundedList β limit :=
  ⟨[], Nat.zero_le limit⟩

/-- The list up to an index. -/
def cut (b : BoundedList β limit) (index : Nat) : BoundedList β limit :=
  ⟨b.values.take index, Nat.le_trans (List.length_take_le' index b.values) b.length_le⟩

/-- Appends a value, if there is room. -/
def append (b : BoundedList β limit) (v : Value β) : Stack.Answer β × BoundedList β limit :=
  if hroom : b.values.length < limit then
    (.ok [], ⟨b.values ++ [v], by rw [List.length_append]; exact hroom⟩)
  else (.error (.stackOverflow limit), b)

/-- Serves one request at the end of the list. -/
def serve (b : BoundedList β limit) : Stack.Request β → Stack.Answer β × BoundedList β limit
  | .act (.push v) => b.append v
  | .act .pop =>
    match b.values.getLast? with
    | some v => (.ok [v], b.cut (b.values.length - 1))
    | none => (.error .stackUnderflow, b)
  | .act .dup =>
    match b.values.getLast? with
    | some v => b.append v
    | none => (.error .stackUnderflow, b)
  | .act (.popMany n) =>
    if n ≤ b.values.length then
      (.ok (b.values.drop (b.values.length - n)).reverse, b.cut (b.values.length - n))
    else (.error .stackUnderflow, b)
  | .act .clear => (.ok [], b.cut 0)
  | .peek =>
    match b.values.getLast? with
    | some v => (.ok [v], b)
    | none => (.error .stackUnderflow, b)

end BoundedList

namespace Stack

/-! ## A stack shows a bounded list -/

section Simulation

variable {limit : Nat}

/-- The stack has the list's bound and its values. -/
structure Shows (s : Stack β) (b : BoundedList β limit) : Prop where
  limit : s.limit = limit
  contents : s.contents = b.values

/-- The same answer, and a stack that shows the list. -/
structure Matches (served : Answer β × Stack β) (listed : Answer β × BoundedList β limit) :
    Prop where
  answer : served.1 = listed.1
  shows : served.2.Shows listed.2

variable {s : Stack β} {b : BoundedList β limit}

theorem shows_empty
    (limit : Nat) :
    (empty limit : Stack β).Shows (.empty : BoundedList β limit) :=
  ⟨rfl, rfl⟩

theorem Shows.length_eq
    (hs : s.Shows b) :
    b.values.length = s.items.length := by
  rw [← hs.contents, Stack.contents, List.length_reverse]

/-- Either both are empty, or the last value of the list is the top one of the stack. -/
theorem Shows.top_cases
    (hs : s.Shows b) :
    s.items = [] ∧ b.values.getLast? = none ∨
      ∃ v rest, s.items = v :: rest ∧ b.values.getLast? = some v := by
  have hlast : b.values.getLast? = s.items.head? := by
    rw [← hs.contents, Stack.contents, List.getLast?_reverse]
  cases hitems : s.items with
  | nil => exact .inl ⟨rfl, by rw [hlast, hitems]; rfl⟩
  | cons v rest => exact .inr ⟨v, rest, rfl, by rw [hlast, hitems]; rfl⟩

/-- What lies below the top `n` values is shown by the list without its last `n`. -/
theorem Shows.cut
    (hs : s.Shows b) {n : Nat} (hn : n ≤ s.items.length) :
    ({ s with items := s.items.drop n } : Stack β).Shows (b.cut (b.values.length - n)) := by
  refine ⟨hs.limit, ?_⟩
  show (s.items.drop n).reverse = b.values.take (b.values.length - n)
  -- An index counted from the bottom becomes one counted from the top.
  rw [hs.length_eq, ← hs.contents, Stack.contents, List.take_reverse, Nat.sub_sub_self hn]

/-- The top `n` values, the top one first, are the last `n` of the list turned around. -/
theorem Shows.reverse_drop
    (hs : s.Shows b) {n : Nat} (hn : n ≤ s.items.length) :
    (b.values.drop (b.values.length - n)).reverse = s.items.take n := by
  rw [hs.length_eq, ← hs.contents, Stack.contents, List.drop_reverse,
    Nat.sub_sub_self hn, List.reverse_reverse]

theorem Shows.append
    (hs : s.Shows b) (v : Value β) :
    Matches ((s.push v).map fun _ => [], orStay (s.push v) s) (b.append v) := by
  by_cases hroom : s.items.length < s.limit
  · have hlist : b.values.length < limit := by rwa [hs.length_eq, ← hs.limit]
    rw [push, if_pos hroom, BoundedList.append, dif_pos hlist]
    refine ⟨rfl, hs.limit, ?_⟩
    show (v :: s.items).reverse = b.values ++ [v]
    rw [List.reverse_cons, ← hs.contents, Stack.contents]
  · have hlist : ¬b.values.length < limit := by rwa [hs.length_eq, ← hs.limit]
    rw [push, if_neg hroom, BoundedList.append, dif_neg hlist, hs.limit]
    exact ⟨rfl, hs⟩

/-- A stack answers a request as the list does that it shows, and goes on showing it. -/
theorem Shows.serve
    (hs : s.Shows b) (request : Request β) :
    Matches (s.serve request) (b.serve request) := by
  rcases request with (v | _ | _ | n | _) | _
  case act.push => exact hs.append v
  case act.pop =>
    rcases hs.top_cases with ⟨hitems, hlast⟩ | ⟨v, rest, hitems, hlast⟩
    · simp only [Stack.serve, answer, act, pop, hitems, BoundedList.serve, hlast]
      exact ⟨rfl, hs⟩
    · have hcut := hs.cut (n := 1) (by simp [hitems])
      rw [hitems] at hcut
      simp only [Stack.serve, answer, act, pop, hitems, BoundedList.serve, hlast]
      exact ⟨rfl, hcut⟩
  case act.dup =>
    rcases hs.top_cases with ⟨hitems, hlast⟩ | ⟨v, rest, hitems, hlast⟩
    · have hpeek : s.peek = .error .stackUnderflow := by rw [peek, hitems]
      simp only [Stack.serve, answer, act, dup, hpeek, BoundedList.serve, hlast]
      exact ⟨rfl, hs⟩
    · have hpeek : s.peek = .ok v := by rw [peek, hitems]
      simp only [Stack.serve, answer, act, dup, hpeek, BoundedList.serve, hlast]
      exact hs.append v
  case act.popMany =>
    by_cases hn : n ≤ s.items.length
    · have hlist : n ≤ b.values.length := by rwa [hs.length_eq]
      simp only [Stack.serve, answer, act, popMany, if_pos hn, BoundedList.serve, if_pos hlist,
        hs.reverse_drop hn]
      exact ⟨rfl, hs.cut hn⟩
    · have hlist : ¬n ≤ b.values.length := by rwa [hs.length_eq]
      simp only [Stack.serve, answer, act, popMany, if_neg hn, BoundedList.serve, if_neg hlist]
      exact ⟨rfl, hs⟩
  case act.clear => exact ⟨rfl, hs.limit, rfl⟩
  case peek =>
    rcases hs.top_cases with ⟨hitems, hlast⟩ | ⟨v, rest, hitems, hlast⟩
    · simp only [Stack.serve, peek, hitems, BoundedList.serve, hlast]
      exact ⟨rfl, hs⟩
    · simp only [Stack.serve, peek, hitems, BoundedList.serve, hlast]
      exact ⟨rfl, hs⟩

/-- So it does along every sequence of requests. -/
theorem Shows.serveAll
    (hs : s.Shows b) (requests : List (Request β)) :
    (serveAll Stack.serve s requests).1 = (serveAll BoundedList.serve b requests).1 ∧
      (serveAll Stack.serve s requests).2.Shows (serveAll BoundedList.serve b requests).2 := by
  induction requests generalizing s b with
  | nil => exact ⟨rfl, hs⟩
  | cons request rest ih =>
      obtain ⟨hanswer, hshows⟩ := hs.serve request
      obtain ⟨hanswers, hrest⟩ := ih hshows
      refine ⟨?_, hrest⟩
      rw [Stackline.serveAll, Stackline.serveAll, hanswer, hanswers]

end Simulation

/-! ## The laws of a stack -/

variable {s : Stack β}

/-- A request that fails leaves the stack as it was. -/
theorem serve_of_error
    {request : Request β} {fault : Fault} (hfails : (s.serve request).1 = .error fault) :
    (s.serve request).2 = s := by
  rcases request with (v | _ | _ | n | _) | _
  case act.push =>
    have hpush : s.push v = .error fault := map_eq_error_iff.mp hfails
    rw [serve, act, hpush]
    rfl
  case act.pop =>
    have hpop : s.pop = .error fault := map_eq_error_iff.mp hfails
    rw [serve, act, hpop]
    rfl
  case act.dup =>
    have hdup : s.dup = .error fault := map_eq_error_iff.mp hfails
    rw [serve, act, hdup]
    rfl
  case act.popMany =>
    have hpop : s.popMany n = .error fault := map_eq_error_iff.mp hfails
    rw [serve, act, hpop]
    rfl
  case act.clear => cases hfails
  case peek => rfl

theorem serve_popMany_of_le
    {n : Nat} (hn : n ≤ s.items.length) :
    s.serve (.act (.popMany n)) = (.ok (s.items.take n), { s with items := s.items.drop n }) := by
  rw [serve, answer, act, popMany, if_pos hn]
  rfl

/-- To pop again and again hands out the same values as to pop as many at once. -/
theorem serveAll_pops
    {n : Nat} (hn : n ≤ s.items.length) :
    serveAll serve s (List.replicate n (.act .pop)) =
      ((s.items.take n).map fun v => .ok [v], { s with items := s.items.drop n }) := by
  induction n generalizing s with
  | zero => rfl
  | succ n ih =>
      cases hitems : s.items with
      | nil => simp [hitems] at hn
      | cons v rest =>
          have hpop : s.serve (.act .pop) = (.ok [v], { s with items := rest }) := by
            simp only [serve, answer, act, pop, hitems]
            rfl
          have hrest : n ≤ ({ s with items := rest } : Stack β).items.length := by
            simpa [hitems] using hn
          rw [List.replicate_succ, serveAll, hpop, ih hrest]
          rfl

theorem serve_push_of_lt
    (hroom : s.items.length < s.limit) (v : Value β) :
    s.serve (.act (.push v)) = (.ok [], { s with items := v :: s.items }) := by
  rw [serve, answer, act, push, if_pos hroom]
  rfl

theorem serve_push_of_le
    (hfull : s.limit ≤ s.items.length) (v : Value β) :
    s.serve (.act (.push v)) = (.error (.stackOverflow s.limit), s) := by
  rw [serve, answer, act, push, if_neg (Nat.not_lt_of_le hfull)]
  rfl

/-- With room for all of them, values are pushed one upon the other. -/
theorem serveAll_pushes
    {values : List (Value β)} (hroom : s.items.length + values.length ≤ s.limit) :
    serveAll serve s (values.map fun v => .act (.push v)) =
      (values.map fun _ => .ok [], { s with items := values.reverse ++ s.items }) := by
  induction values generalizing s with
  | nil => rfl
  | cons v rest ih =>
      rw [List.length_cons] at hroom
      have hrest : ({ s with items := v :: s.items } : Stack β).items.length + rest.length ≤
          s.limit := by
        rw [List.length_cons]
        omega
      rw [List.map_cons, serveAll, serve_push_of_lt (by omega), ih hrest]
      simp

/-- They are all pushed only if there is that room. -/
theorem room_of_pushes
    {values : List (Value β)} (hfits : s.Fits)
    (hok : ∀ answer ∈ (serveAll serve s (values.map fun v => .act (.push v))).1,
      answer.isOk = true) :
    s.items.length + values.length ≤ s.limit := by
  induction values generalizing s with
  | nil => exact hfits
  | cons v rest ih =>
      rw [List.map_cons, serveAll] at hok
      obtain ⟨hfirst, hothers⟩ := List.forall_mem_cons.mp hok
      by_cases hroom : s.items.length < s.limit
      · rw [serve_push_of_lt hroom] at hothers
        have hpushed : ({ s with items := v :: s.items } : Stack β).Fits := hroom
        have hrest := ih hpushed hothers
        simp only [List.length_cons] at hrest ⊢
        omega
      · rw [serve_push_of_le (Nat.le_of_not_lt hroom)] at hfirst
        cases hfirst

/-- After any requests to a new stack, its answers and its values are those of a bounded
list, and so no more than the limit.  A request that fails leaves it as it was, several
values are taken off at once as one after the other, and as many pushes as there is room
for are undone by taking the values off again, the last one first. -/
theorem serves_as_bounded_list
    (limit : Nat) (requests : List (Request β)) :
    let served := serveAll serve (empty limit : Stack β) requests
    let listed := serveAll BoundedList.serve (.empty : BoundedList β limit) requests
    let s := served.2
    served.1 = listed.1 ∧ s.limit = limit ∧ s.contents = listed.2.values ∧
      s.contents.length ≤ limit ∧
      (∀ request fault, (s.serve request).1 = .error fault → (s.serve request).2 = s) ∧
      (∀ n ≤ s.contents.length, ∃ values rest,
        s.serve (.act (.popMany n)) = (.ok values, rest) ∧
        serveAll serve s (List.replicate n (.act .pop)) =
          (values.map fun v => .ok [v], rest)) ∧
      ∀ values : List (Value β),
        let pushed := serveAll serve s (values.map fun v => .act (.push v))
        ((∀ answer ∈ pushed.1, answer.isOk = true) ↔
          s.contents.length + values.length ≤ limit) ∧
        ((∀ answer ∈ pushed.1, answer.isOk = true) →
          pushed.2.serve (.act (.popMany values.length)) = (.ok values.reverse, s)) := by
  intro served listed s
  obtain ⟨hanswers, hshows⟩ := (shows_empty limit).serveAll requests
  have hlength : s.contents.length = s.items.length := List.length_reverse
  have hbound : s.contents.length ≤ limit := by
    rw [hshows.contents]
    exact listed.2.length_le
  have hfits : s.Fits := by
    rw [Fits, ← hlength, hshows.limit]
    exact hbound
  refine ⟨hanswers, hshows.limit, hshows.contents, hbound, ?_, ?_, ?_⟩
  · intro request fault hfails
    exact serve_of_error hfails
  · intro n hn
    rw [hlength] at hn
    exact ⟨_, _, serve_popMany_of_le hn, serveAll_pops hn⟩
  · intro values pushed
    have hroom : (∀ answer ∈ pushed.1, answer.isOk = true) →
        s.items.length + values.length ≤ s.limit := room_of_pushes hfits
    rw [hlength, ← hshows.limit]
    refine ⟨⟨hroom, ?_⟩, ?_⟩
    · intro hle answer hanswer
      simp only [pushed, serveAll_pushes hle] at hanswer
      obtain ⟨-, -, rfl⟩ := List.mem_map.mp hanswer
      rfl
    · intro hok
      have hpushed : pushed.2 = { s with items := values.reverse ++ s.items } :=
        congrArg Prod.snd (serveAll_pushes (hroom hok))
      have hitems : pushed.2.items = values.reverse ++ s.items := by rw [hpushed]
      rw [serve, answer, act, popMany_of_append hitems, hpushed]
      rfl

/-- With room for two values and one on the stack, two cannot be taken off, one can, and
a second one can be pushed and taken off again. -/
theorem serves_as_bounded_list_two :
    let s : Stack Standard := { limit := 2, items := [.int 1] }
    let full : Stack Standard := { limit := 2, items := [.int 5, .int 1] }
    serveAll serve (empty 2) [.act .pop, .act (.push (.int 1)), .peek] =
        ([.error .stackUnderflow, .ok [], .ok [.int 1]], s) ∧
      (s.serve (.act (.popMany 2))).1 = .error .stackUnderflow ∧
      (s.serve (.act (.popMany 2))).2 = s ∧
      (∃ values rest,
        s.serve (.act (.popMany 1)) = (.ok values, rest) ∧
        serveAll serve s [.act .pop] = (values.map fun v => .ok [v], rest)) ∧
      serveAll serve s [.act (.push (.int 5))] = ([.ok []], full) ∧
      full.serve (.act (.popMany 1)) = (.ok [.int 5], s) := by
  intro s full
  obtain ⟨-, -, -, -, hfails, hpops, hpushes⟩ :=
    serves_as_bounded_list (β := Standard) 2 [.act .pop, .act (.push (.int 1)), .peek]
  have hroom : ([.int 1] : List (Value Standard)).length + 1 ≤ 2 := by decide
  refine ⟨rfl, rfl, hfails (.act (.popMany 2)) .stackUnderflow rfl, hpops 1 (by decide), rfl, ?_⟩
  exact (hpushes [.int 5]).2 ((hpushes [.int 5]).1.mpr hroom)

end Stack
end Stackline
