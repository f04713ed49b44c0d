import Mathlib.Logic.Function.Basic
import Cytadel.Lib.Steps

/-!
# Monitors

An object behind a mutex, and any number of clients that call it. Outside of the
lock a call decides whether it needs the object at all; inside, it changes the
object and writes to a common output, piece by piece, while the others go on
with what they do outside. The output is that of the calls one after the other,
in the order in which they took the lock, and that order is the one of each
client's own calls.
-/

namespace Lib

/-- `asks` is what a call does outside of the lock, `body` what it does inside. -/
structure Monitor (α β σ ω : Type) where
  asks : α → Option β
  body : β → σ → List ω × σ

namespace Monitor

variable {ι α β σ ω : Type}

/-- Where a client stands: not in a call, at the lock, or behind it with what it
has still to write. -/
inductive Client (β ω : Type)
  | idle
  | waiting (job : β)
  | inside (rest : List ω)

structure World (ι β σ ω : Type) where
  clients : ι → Client β ω
  holder : Option ι
  shared : σ
  out : List ω

inductive Event (ι α β : Type)
  | call (i : ι) (a : α)
  | enter (i : ι) (job : β)
  | write (i : ι) (n : ℕ)
  | leave (i : ι)

variable [DecidableEq ι]

/-- What can happen. -/
inductive Step (m : Monitor α β σ ω) : Event ι α β → World ι β σ ω → World ι β σ ω → Prop
  | skip {w : World ι β σ ω} {i : ι} {a : α} (hidle : w.clients i = .idle)
      (hasks : m.asks a = none) : Step m (.call i a) w w
  | call {w : World ι β σ ω} {i : ι} {a : α} {job : β} (hidle : w.clients i = .idle)
      (hasks : m.asks a = some job) : Step m (.call i a) w
        { w with clients := Function.update w.clients i (.waiting job) }
  | enter {w : World ι β σ ω} {i : ι} {job : β} (hwaiting : w.clients i = .waiting job)
      (hfree : w.holder = none) :
      Step m (.enter i job) w
        { clients := Function.update w.clients i (.inside (m.body job w.shared).1)
          holder := some i
          shared := (m.body job w.shared).2
          out := w.out }
  | write {w : World ι β σ ω} {i : ι} {rest : List ω} (n : ℕ)
      (hinside : w.clients i = .inside rest) :
      Step m (.write i n) w
        { w with
          clients := Function.update w.clients i (.inside (rest.drop n))
          out := w.out ++ rest.take n }
  | leave {w : World ι β σ ω} {i : ι} (hdone : w.clients i = .inside []) :
      Step m (.leave i) w
        { w with
          clients := Function.update w.clients i .idle
          holder := none }

/-- Nobody is in a call. -/
def World.start (shared : σ) : World ι β σ ω where
  clients _ := .idle
  holder := none
  shared := shared
  out := []

/-! ## One call after the other -/

/-- Jobs in sequence. -/
def sequence (m : Monitor α β σ ω) : List β → σ → List ω × σ
  | [], s => ([], s)
  | job :: jobs, s =>
      let r := m.sequence jobs (m.body job s).2
      ((m.body job s).1 ++ r.1, r.2)

theorem sequence_append (m : Monitor α β σ ω) (jobs : List β) (job : β) (s : σ) :
    m.sequence (jobs ++ [job]) s =
      ((m.sequence jobs s).1 ++ (m.body job (m.sequence jobs s).2).1,
        (m.body job (m.sequence jobs s).2).2) := by
  induction jobs generalizing s with
  | nil => simp [sequence]
  | cons j jobs ih => simp [sequence, ih]

/-- The jobs in the order in which they took the lock, with their clients. -/
def entered (events : List (Event ι α β)) : List (ι × β) :=
  events.filterMap fun
    | .enter i job => some (i, job)
    | _ => none

/-- The calls. -/
def called (events : List (Event ι α β)) : List (ι × α) :=
  events.filterMap fun
    | .call i a => some (i, a)
    | _ => none

/-- The jobs of one client that its calls ask for. -/
def asked (m : Monitor α β σ ω) (events : List (Event ι α β)) (i : ι) : List β :=
  (called events).filterMap fun c => if c.1 = i then m.asks c.2 else none

/-- Those of one client that took the lock. -/
def served (events : List (Event ι α β)) (i : ι) : List β :=
  (entered events).filterMap fun e => if e.1 = i then some e.2 else none

/-- What a client has still to do. -/
def Client.pending : Client β ω → List β
  | .idle => []
  | .waiting job => [job]
  | .inside _ => []

/-- What a client has still to write. -/
def Client.unwritten : Client β ω → List ω
  | .idle => []
  | .waiting _ => []
  | .inside rest => rest

/-- What the client in the lock has still to write. -/
def World.rest (w : World ι β σ ω) : List ω :=
  match w.holder with
  | none => []
  | some i => (w.clients i).unwritten

/-! ## What every step keeps -/

variable {m : Monitor α β σ ω} {s₀ : σ} {events : List (Event ι α β)} {w w' : World ι β σ ω}

/-- The output with what is still to come is that of the jobs in sequence, a
client is behind the lock if it holds it, and its jobs took the lock in the
order in which it asked for them. -/
structure Inv (m : Monitor α β σ ω) (s₀ : σ) (events : List (Event ι α β))
    (w : World ι β σ ω) : Prop where
  output : m.sequence ((entered events).map Prod.snd) s₀ = (w.out ++ w.rest, w.shared)
  inside : ∀ i, (∃ rest, w.clients i = .inside rest) ↔ w.holder = some i
  order : ∀ i, m.asked events i = served events i ++ (w.clients i).pending

theorem inv_start (m : Monitor α β σ ω) (s₀ : σ) :
    m.Inv s₀ ([] : List (Event ι α β)) (World.start s₀) where
  output := rfl
  inside i := by simp [World.start]
  order i := rfl

omit [DecidableEq ι] in
theorem rest_of_holder {i : ι} (h : w.holder = some i) : w.rest = (w.clients i).unwritten := by
  rw [World.rest, h]

omit [DecidableEq ι] in
theorem rest_of_free (h : w.holder = none) : w.rest = [] := by
  rw [World.rest, h]

theorem asked_append (m : Monitor α β σ ω) (e : Event ι α β) (i : ι) :
    m.asked (events ++ [e]) i = m.asked events i ++ m.asked [e] i := by
  simp only [asked, called, List.filterMap_append]

theorem served_append (e : Event ι α β) (i : ι) :
    served (events ++ [e]) i = served events i ++ served [e] i := by
  simp only [served, entered, List.filterMap_append]

omit [DecidableEq ι] in
theorem entered_append (e : Event ι α β) :
    (entered (events ++ [e])).map Prod.snd =
      (entered events).map Prod.snd ++ (entered [e]).map Prod.snd := by
  simp only [entered, List.filterMap_append, List.map_append]

/-- The clients that are not the one that moves. -/
theorem order_of_ne {i : ι} {c : Client β ω} (h : m.Inv s₀ events w) (e : Event ι α β)
    (hclients : w'.clients = Function.update w.clients i c)
    (hself : m.asked (events ++ [e]) i = served (events ++ [e]) i ++ c.pending)
    (hasked : ∀ j, j ≠ i → m.asked [e] j = []) (hserved : ∀ j, j ≠ i → served [e] j = []) (j : ι) :
    m.asked (events ++ [e]) j = served (events ++ [e]) j ++ (w'.clients j).pending := by
  by_cases hj : j = i
  · subst hj
    rw [hclients, Function.update_self]
    exact hself
  · rw [asked_append, served_append, hasked j hj, hserved j hj, hclients,
      Function.update_of_ne hj, List.append_nil, List.append_nil]
    exact h.order j

theorem Step.inv {e : Event ι α β} (h : m.Inv s₀ events w) (hstep : m.Step e w w') :
    m.Inv s₀ (events ++ [e]) w' := by
  cases hstep with
  | @skip _ i a hidle hasks =>
      refine ⟨?_, h.inside, fun j => ?_⟩
      · rw [entered_append]
        simpa [entered] using h.output
      · have hnone : m.asked [Event.call i a] j = [] := by
          simp [asked, called, hasks]
        rw [asked_append, served_append, hnone, h.order j]
        simp [served, entered]
  | @call _ i a job hidle hasks =>
      have hout : w.holder ≠ some i := by
        intro hholder
        obtain ⟨rest, hrest⟩ := (h.inside i).mpr hholder
        rw [hidle] at hrest
        cases hrest
      refine ⟨?_, fun j => ?_, order_of_ne h _ rfl ?_ ?_ ?_⟩
      · have hrest : World.rest { w with clients := Function.update w.clients i (.waiting job) } =
            w.rest := by
          cases hholder : w.holder with
          | none =>
              rw [rest_of_free hholder]
              exact rest_of_free rfl
          | some k =>
              have hk : k ≠ i := by
                intro hki
                exact hout (hki ▸ hholder)
              rw [rest_of_holder hholder, rest_of_holder (i := k) rfl]
              simp only [Function.update_of_ne hk]
        rw [entered_append, hrest]
        simpa [entered] using h.output
      · by_cases hj : j = i
        · subst hj
          simp [hout]
        · simpa [Function.update_of_ne hj] using h.inside j
      · have hone : m.asked [Event.call i a] i = [job] := by
          simp [asked, called, hasks]
        have hold := h.order i
        rw [hidle, Client.pending, List.append_nil] at hold
        rw [asked_append, served_append, hone, hold, Client.pending]
        simp [served, entered]
      · intro j hj
        simp [asked, called, Ne.symm hj]
      · intro j _
        simp [served, entered]
  | @enter _ i job hwaiting hfree =>
      refine ⟨?_, fun j => ?_, order_of_ne h _ rfl ?_ ?_ ?_⟩
      · have hold := h.output
        rw [rest_of_free hfree, List.append_nil] at hold
        rw [entered_append, rest_of_holder (i := i) rfl]
        simp only [Function.update_self, Client.unwritten]
        rw [show (entered [(Event.enter i job : Event ι α β)]).map Prod.snd = [job] from rfl,
          sequence_append, hold]
      · by_cases hj : j = i
        · subst hj
          simp
        · have hother : ¬ ∃ rest, w.clients j = .inside rest := by
            rw [h.inside j, hfree]
            simp
          simp only [Function.update_of_ne hj, hother, false_iff, Option.some.injEq]
          exact Ne.symm hj
      · have hold := h.order i
        rw [hwaiting, Client.pending] at hold
        rw [asked_append, served_append, hold, Client.pending]
        simp [asked, called, served, entered]
      · intro j _
        simp [asked, called]
      · intro j hj
        simp [served, entered, Ne.symm hj]
  | @write _ i rest n hinside =>
      have hholder := (h.inside i).mp ⟨rest, hinside⟩
      refine ⟨?_, fun j => ?_, order_of_ne h _ rfl ?_ ?_ ?_⟩
      · have hold := h.output
        rw [rest_of_holder hholder, hinside, Client.unwritten] at hold
        rw [entered_append, rest_of_holder (i := i) (by exact hholder)]
        simp only [Function.update_self, Client.unwritten]
        simpa [entered, List.append_assoc] using hold
      · by_cases hj : j = i
        · subst hj
          simp [hholder]
        · simpa [Function.update_of_ne hj] using h.inside j
      · have hold := h.order i
        rw [hinside, Client.pending, List.append_nil] at hold
        rw [asked_append, served_append, hold, Client.pending]
        simp [asked, called, served, entered]
      · intro j _
        simp [asked, called]
      · intro j _
        simp [served, entered]
  | @leave _ i hdone =>
      have hholder := (h.inside i).mp ⟨[], hdone⟩
      refine ⟨?_, fun j => ?_, order_of_ne h _ rfl ?_ ?_ ?_⟩
      · have hold := h.output
        rw [rest_of_holder hholder, hdone, Client.unwritten] at hold
        rw [entered_append, rest_of_free (by rfl)]
        simpa [entered] using hold
      · by_cases hj : j = i
        · subst hj
          simp
        · have hother : ¬ ∃ rest, w.clients j = .inside rest := by
            rw [h.inside j, hholder, Option.some.injEq]
            exact Ne.symm hj
          simpa [Function.update_of_ne hj] using hother
      · have hold := h.order i
        rw [hdone, Client.pending, List.append_nil] at hold
        rw [asked_append, served_append, hold, Client.pending]
        simp [asked, called, served, entered]
      · intro j _
        simp [asked, called]
      · intro j _
        simp [served, entered]

theorem run_inv {more : List (Event ι α β)} (h : m.Inv s₀ events w)
    (hrun : Steps m.Step more w w') : m.Inv s₀ (events ++ more) w' := by
  induction hrun generalizing events with
  | nil => simpa using h
  | @cons e more w u w' hstep _ ih =>
      have hnext := ih (hstep.inv h)
      rwa [List.append_assoc, List.singleton_append] at hnext

/-- When the lock is free, the output and the object are those of the jobs in
sequence. -/
theorem run_sequential (hrun : Steps m.Step events (World.start s₀) w) (hfree : w.holder = none) :
    m.sequence ((entered events).map Prod.snd) s₀ = (w.out, w.shared) := by
  have hinv := run_inv (inv_start m s₀) hrun
  rw [List.nil_append] at hinv
  have hout := hinv.output
  rw [World.rest, hfree] at hout
  simpa using hout

/-- A client that is not in a call has had its jobs done, in its own order. -/
theorem run_order (hrun : Steps m.Step events (World.start s₀) w) {i : ι}
    (hidle : w.clients i = .idle) : served events i = m.asked events i := by
  have hinv := run_inv (inv_start m s₀) hrun
  rw [List.nil_append] at hinv
  have horder := hinv.order i
  rw [hidle, Client.pending, List.append_nil] at horder
  exact horder.symm

/-- Every job that took the lock was asked for. -/
theorem run_asked (hrun : Steps m.Step events (World.start s₀) w) {i : ι} {job : β}
    (h : (i, job) ∈ entered events) : ∃ a, (i, a) ∈ called events ∧ m.asks a = some job := by
  have hinv := run_inv (inv_start m s₀) hrun
  rw [List.nil_append] at hinv
  have hserved : job ∈ served events i := List.mem_filterMap.mpr ⟨(i, job), h, by simp⟩
  have hasked : job ∈ m.asked events i := by
    rw [hinv.order i]
    exact List.mem_append_left _ hserved
  obtain ⟨⟨j, a⟩, hcall, hjob⟩ := List.mem_filterMap.mp hasked
  split at hjob
  · next hj =>
      obtain rfl : j = i := hj
      exact ⟨a, hcall, hjob⟩
  · cases hjob

end Monitor

end Lib
