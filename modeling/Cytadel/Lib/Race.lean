import Mathlib.Data.Fintype.Basic
import Mathlib.Logic.Function.Basic
import Mathlib.Logic.Relation
import Cytadel.Lib.Txn

/-!
# Programs that race on one store

Several clients run programs of calls on one transactional store, a connection
each. A transaction takes its snapshot at its first read and the write lock at
its first write; while one client has the lock the writes of the others fail,
and so does a write on a snapshot that is out of date. Which calls fail, and
which client comes next, is chosen move by move, and any client may lose its
connection at any time.

`Safe` is about one program alone: whatever becomes durable by it is a step of
a given relation, on the assumption that the others keep to that relation too.
Programs that are all safe can then be run against each other (`run_sound`).
-/

namespace Lib.Race

/-- What a call is for. A `host` call does not touch the data. -/
inductive Verb
  | host
  | statement
  | begin
  | commit
  | rollback
  deriving DecidableEq, Repr

/-- The transaction of a connection; a deferred one has not used the store yet. -/
inductive Handle (δ : Type)
  | autocommit
  | deferred
  | reading (snapshot : δ)
  | writing (copy : δ)

/-- How a call comes out, if nothing else stands against it. A failure may take
the transaction with it. -/
inductive Outcome (τ : Type)
  | success (now : τ)
  | failure
  | aborted

/-- A reply, and the connection and the durable data after it. -/
structure Answer (τ δ : Type) where
  reply : Reply τ δ
  handle : Handle δ
  committed : δ

section Call

variable {τ δ : Type}

namespace Handle

def view (d : δ) : Handle δ → δ
  | .autocommit => d
  | .deferred => d
  | .reading snapshot => snapshot
  | .writing copy => copy

/-- A read in a deferred transaction takes its snapshot. -/
def read (d : δ) : Handle δ → Handle δ
  | .deferred => .reading d
  | h => h

/-- The data that a write would change, if the write can be made at all. -/
def base [DecidableEq δ] (locked : Bool) (d : δ) : Handle δ → Option δ
  | .autocommit => if locked then none else some d
  | .deferred => if locked then none else some d
  | .reading snapshot => if locked || snapshot ≠ d then none else some snapshot
  | .writing copy => some copy

/-- A write outside a transaction is durable at once. -/
def put (now : τ) (d new : δ) : Handle δ → Answer τ δ
  | .autocommit => ⟨.done now new, .autocommit, new⟩
  | _ => ⟨.done now new, .writing new, d⟩

def write [DecidableEq δ] (locked : Bool) (now : τ) (f : δ → Option δ) (d : δ) (h : Handle δ) :
    Answer τ δ :=
  match h.base locked d with
  | none => ⟨.error, h, d⟩
  | some b =>
      match f b with
      | none => ⟨.constraint, h, d⟩
      | some new => h.put now d new

/-- One call on a connection, on the durable data `d`; `locked` says whether
another connection has the write lock. -/
def call [DecidableEq δ] (locked : Bool) (o : Outcome τ) (k : Verb)
    (w : Option (τ → δ → Option δ)) (d : δ) (h : Handle δ) : Answer τ δ :=
  match o with
  | .failure => ⟨.error, h, d⟩
  | .aborted => ⟨.error, .autocommit, d⟩
  | .success now =>
      match k with
      | .host => ⟨.done now (h.view d), h, d⟩
      | .statement =>
          match w with
          | none => ⟨.done now (h.view d), h.read d, d⟩
          | some f => h.write locked now (f now) d
      | .begin =>
          match h with
          | .autocommit => ⟨.done now d, .deferred, d⟩
          | _ => ⟨.error, h, d⟩
      | .commit =>
          match h with
          | .autocommit => ⟨.error, h, d⟩
          | .writing copy => ⟨.done now copy, .autocommit, copy⟩
          | _ => ⟨.done now d, .autocommit, d⟩
      | .rollback =>
          match h with
          | .autocommit => ⟨.error, h, d⟩
          | _ => ⟨.done now d, .autocommit, d⟩

def isWriting : Handle δ → Bool
  | .writing _ => true
  | _ => false

end Handle

end Call

/-! ## The clients together -/

/-- A client, with what is left of the program it runs. -/
structure Client (τ δ α : Type) where
  handle : Handle δ
  task : Option (Prog Verb τ δ α)

/-- The value of a program that has come to its end. -/
def Client.returned {τ δ α : Type} (c : Client τ δ α) : Option α :=
  match c.task with
  | some (.ret a) => some a
  | _ => none

structure System (ι τ δ α : Type) where
  committed : δ
  client : ι → Client τ δ α

/-- `reopen` is a client that closes its connection, or dies, and begins anew. -/
inductive Move (ι τ : Type)
  | start (i : ι)
  | call (i : ι) (o : Outcome τ)
  | finish (i : ι)
  | reopen (i : ι)

variable {ι τ δ α β : Type} [Fintype ι] [DecidableEq ι] [DecidableEq δ]

namespace System

/-- No client is doing anything. -/
def idle (d : δ) : System ι τ δ α := ⟨d, fun _ => ⟨.autocommit, none⟩⟩

/-- Has a client other than `i` the write lock? -/
def locked (s : System ι τ δ α) (i : ι) : Bool :=
  decide (∃ j, j ≠ i ∧ (s.client j).handle.isWriting = true)

def setClient (s : System ι τ δ α) (i : ι) (c : Client τ δ α) : System ι τ δ α :=
  { s with client := Function.update s.client i c }

/-- One move. A move that does not apply changes nothing. -/
def step (program : Prog Verb τ δ α) (s : System ι τ δ α) : Move ι τ → System ι τ δ α
  | .start i =>
      match (s.client i).task with
      | none => s.setClient i ⟨(s.client i).handle, some program⟩
      | some _ => s
  | .call i o =>
      match (s.client i).task with
      | some (.call k w cont) =>
          let r := (s.client i).handle.call (s.locked i) o k w s.committed
          { committed := r.committed
            client := Function.update s.client i ⟨r.handle, some (cont r.reply)⟩ }
      | _ => s
  | .finish i =>
      match (s.client i).task with
      | some (.ret _) => s.setClient i ⟨(s.client i).handle, none⟩
      | _ => s
  | .reopen i => s.setClient i ⟨.autocommit, none⟩

def run (program : Prog Verb τ δ α) (s : System ι τ δ α) (moves : List (Move ι τ)) :
    System ι τ δ α := moves.foldl (step program) s

/-- A whole program of one client, while the others wait. -/
def alone (i : ι) (os : List (Outcome τ)) : List (Move ι τ) := .start i :: os.map (.call i)

end System

/-! ## What is true of a client whatever the others do -/

section Safe

variable (G : δ → δ → Prop)

/-- Where a client that last met the data as `seen` can find them `d`. What it
wrote stands on `seen` itself, for it has the lock. -/
structure Handle.Fits (seen d : δ) (h : Handle δ) : Prop where
  later : Relation.ReflTransGen G seen d
  snapshot : ∀ s, h = .reading s → Relation.ReflTransGen G s d
  base : h.isWriting = true → seen = d

/-- Whatever the program makes durable is a step of `G`, if the others keep to
`G` too, and it returns with `Q`, of its value, the data as it last met them and
its connection. -/
def Safe (Q : α → δ → Handle δ → Prop) : Prog Verb τ δ α → δ → Handle δ → Prop
  | .ret a, seen, h => Q a seen h
  | .call k w cont, seen, h => ∀ (locked : Bool) (o : Outcome τ) (d : δ), h.Fits G seen d →
      Relation.ReflGen G d (h.call locked o k w d).committed ∧
        Safe Q (cont (h.call locked o k w d).reply) (h.call locked o k w d).committed
          (h.call locked o k w d).handle

variable {G}

omit [DecidableEq δ] in
theorem Handle.Fits.self {seen d : δ} {h : Handle δ} (hfits : h.Fits G seen d) : h.Fits G d d where
  later := .refl
  snapshot := hfits.snapshot
  base _ := rfl

theorem Safe.mono {Q Q' : α → δ → Handle δ → Prop} {p : Prog Verb τ δ α}
    (hQ : ∀ a d h, Q a d h → Q' a d h) {seen : δ} {h : Handle δ} (hp : Safe G Q p seen h) :
    Safe G Q' p seen h := by
  induction p generalizing seen h with
  | ret a => exact hQ _ _ _ hp
  | call k w cont ih =>
      intro locked o d hfits
      obtain ⟨hstep, hcont⟩ := hp locked o d hfits
      exact ⟨hstep, ih _ hcont⟩

/-- The data that a program leaves are later than those it found. -/
theorem Safe.later {Q : α → δ → Handle δ → Prop} {p : Prog Verb τ δ α} {seen : δ} {h : Handle δ}
    (hp : Safe G Q p seen h) :
    Safe G (fun a d h' => Relation.ReflTransGen G seen d ∧ Q a d h') p seen h := by
  induction p generalizing seen h with
  | ret a => exact ⟨.refl, hp⟩
  | call k w cont ih =>
      intro locked o d hfits
      obtain ⟨hstep, hcont⟩ := hp locked o d hfits
      refine ⟨hstep, (ih _ hcont).mono fun a d' h' hd => ⟨?_, hd.2⟩⟩
      exact hfits.later.trans (hstep.to_reflTransGen.trans hd.1)

theorem Safe.bind {P : α → δ → Handle δ → Prop} {Q : β → δ → Handle δ → Prop}
    {p : Prog Verb τ δ α} {f : α → Prog Verb τ δ β} {seen : δ} {h : Handle δ}
    (hp : Safe G P p seen h)
    (hf : ∀ a d h', Relation.ReflTransGen G seen d → P a d h' → Safe G Q (f a) d h') :
    Safe G Q (p >>= f) seen h := by
  have hpf : Safe G (fun a => Safe G Q (f a)) p seen h :=
    hp.later.mono fun a d h' hd => hf a d h' hd.1 hd.2
  clear hp hf
  induction p generalizing seen h with
  | ret a => exact hpf
  | call k w cont ih =>
      intro locked o d hfits
      obtain ⟨hstep, hcont⟩ := hpf locked o d hfits
      exact ⟨hstep, ih _ hcont⟩

/-- One call: what it needs is that both ways to fail, and to succeed, are safe
to go on from. -/
theorem safe_call {Q : α → δ → Handle δ → Prop} {k : Verb} {w : Option (τ → δ → Option δ)}
    {cont : Reply τ δ → Prog Verb τ δ α} {seen : δ} {h : Handle δ}
    (hfail : ∀ d h', Safe G Q (cont .error) d h')
    (hok : ∀ locked now d, h.Fits G seen d →
      Relation.ReflGen G d (h.call locked (.success now) k w d).committed ∧
        Safe G Q (cont (h.call locked (.success now) k w d).reply)
          (h.call locked (.success now) k w d).committed
          (h.call locked (.success now) k w d).handle) :
    Safe G Q (.call k w cont) seen h := by
  intro locked o d hfits
  cases o with
  | success now => exact hok locked now d hfits
  | failure => exact ⟨.refl, hfail d h⟩
  | aborted => exact ⟨.refl, hfail d .autocommit⟩

theorem safe_attempt_host {Q : Bool → δ → Handle δ → Prop} {seen : δ} {h : Handle δ}
    (hfail : ∀ d h', Q false d h') (hok : ∀ d, h.Fits G seen d → Q true d h) :
    Safe G Q (Prog.attempt .host : Prog Verb τ δ Bool) seen h :=
  safe_call hfail fun _ _ d hfits => ⟨.refl, hok d hfits⟩

/-- What such calls must keep is `I`. -/
theorem safe_attemptAll_host {Q : Bool → δ → Handle δ → Prop} {I : δ → Prop} {h : Handle δ}
    (n : ℕ) (hfail : ∀ d h', Q false d h') (hI : ∀ d d', I d → h.Fits G d d' → I d')
    (hok : ∀ d, I d → Q true d h) {seen : δ} (hseen : I seen) :
    Safe G Q (Prog.attemptAll .host n : Prog Verb τ δ Bool) seen h := by
  induction n generalizing seen with
  | zero => exact hok seen hseen
  | succ n ih =>
      rw [Prog.attemptAll]
      have hcall : Safe G (fun b d h' => b = true → I d ∧ h' = h)
          (Prog.attempt .host : Prog Verb τ δ Bool) seen h :=
        safe_attempt_host (by simp) fun d hfits _ => ⟨hI seen d hseen hfits, rfl⟩
      refine hcall.bind fun b d h' _ hb => ?_
      cases b with
      | false => exact hfail d h'
      | true =>
          obtain ⟨hd, rfl⟩ := hb rfl
          exact ih hd

theorem safe_timestamp {Q : Option τ → δ → Handle δ → Prop} {seen : δ} {h : Handle δ}
    (hfail : ∀ d h', Q none d h') (hok : ∀ now d, h.Fits G seen d → Q (some now) d h) :
    Safe G Q (Prog.timestamp .host : Prog Verb τ δ (Option τ)) seen h :=
  safe_call hfail fun _ now d hfits => ⟨.refl, hok now d hfits⟩

theorem safe_select {Q : Option β → δ → Handle δ → Prop} {f : δ → β} {seen : δ} {h : Handle δ}
    (hfail : ∀ d h', Q none d h')
    (hok : ∀ d, h.Fits G seen d → Q (some (f (h.view d))) d (h.read d)) :
    Safe G Q (Prog.select .statement f : Prog Verb τ δ (Option β)) seen h :=
  safe_call hfail fun _ _ d hfits => ⟨.refl, hok d hfits⟩

theorem safe_rollback {Q : Bool → δ → Handle δ → Prop} {seen : δ} {h : Handle δ}
    (hany : ∀ b d h', Q b d h') :
    Safe G Q (Prog.attempt .rollback : Prog Verb τ δ Bool) seen h := by
  refine safe_call (hany false) fun locked now d hfits => ?_
  cases h <;> exact ⟨.refl, hany _ d _⟩

/-- A transaction is begun by a connection that is in none. -/
theorem safe_begin {Q : Bool → δ → Handle δ → Prop} {seen : δ} {h : Handle δ}
    (hfail : ∀ d h', Q false d h')
    (hok : h = .autocommit → ∀ d, Relation.ReflTransGen G seen d → Q true d .deferred) :
    Safe G Q (Prog.attempt .begin : Prog Verb τ δ Bool) seen h := by
  refine safe_call hfail fun locked now d hfits => ?_
  cases h with
  | autocommit => exact ⟨.refl, hok rfl d hfits.later⟩
  | _ => exact ⟨.refl, hfail d _⟩

/-- What is written on the data becomes durable. -/
theorem safe_commit {Q : Bool → δ → Handle δ → Prop} {seen copy : δ}
    (hfail : ∀ d h', Q false d h') (hG : G seen copy) (hok : Q true copy .autocommit) :
    Safe G Q (Prog.attempt .commit : Prog Verb τ δ Bool) seen (.writing copy) := by
  refine safe_call hfail fun locked now d hfits => ?_
  rw [hfits.base rfl] at hG
  exact ⟨.single hG, hok⟩

/-- A write outside a transaction. -/
theorem safe_exec_autocommit {Q : Prog.Step → δ → Handle δ → Prop} {f : τ → δ → Option δ}
    {seen : δ} (hfail : ∀ r d h', r ≠ .done → Q r d h')
    (hok : ∀ now d new, Relation.ReflTransGen G seen d → f now d = some new →
      Relation.ReflGen G d new ∧ Q .done new .autocommit) :
    Safe G Q (Prog.exec .statement f : Prog Verb τ δ Prog.Step) seen .autocommit := by
  refine safe_call (fun d h' => hfail _ d h' (by simp)) fun locked now d hfits => ?_
  have hcall : (Handle.autocommit : Handle δ).call locked (.success now) .statement (some f) d =
      Handle.autocommit.write locked now (f now) d := rfl
  rw [hcall, Handle.write, Handle.base]
  cases locked with
  | true => exact ⟨.refl, hfail _ d _ (by simp)⟩
  | false =>
      simp only [Bool.false_eq_true, if_false]
      cases hf : f now d with
      | none => exact ⟨.refl, hfail _ d _ (by simp)⟩
      | some new => exact hok now d new hfits.later hf

theorem Handle.base_eq (locked : Bool) (d : δ) (h : Handle δ) :
    h.base locked d = none ∨ h.base locked d = some (h.view d) := by
  cases h with
  | autocommit =>
      cases locked
      · exact .inr rfl
      · exact .inl rfl
  | deferred =>
      cases locked
      · exact .inr rfl
      · exact .inl rfl
  | reading snapshot =>
      simp only [Handle.base, Handle.view]
      split
      · exact .inl rfl
      · exact .inr rfl
  | writing copy => exact .inr rfl

/-- A write in a transaction changes its copy alone. -/
theorem safe_exec_inTxn {Q : Prog.Step → δ → Handle δ → Prop} {f : τ → δ → Option δ} {seen : δ}
    {h : Handle δ} (hopen : h ≠ .autocommit) (hfail : ∀ r d h', r ≠ .done → Q r d h')
    (hok : ∀ now d new, h.Fits G seen d → f now (h.view d) = some new →
      Q .done d (.writing new)) :
    Safe G Q (Prog.exec .statement f : Prog Verb τ δ Prog.Step) seen h := by
  refine safe_call (fun d h' => hfail _ d h' (by simp)) fun locked now d hfits => ?_
  have hcall : h.call locked (.success now) .statement (some f) d = h.write locked now (f now) d :=
    rfl
  rw [hcall, Handle.write]
  obtain hnone | hsome := h.base_eq locked d
  · rw [hnone]
    exact ⟨.refl, hfail _ d _ (by simp)⟩
  · rw [hsome]
    simp only
    cases hf : f now (h.view d) with
    | none => exact ⟨.refl, hfail _ d _ (by simp)⟩
    | some new =>
        have hput : h.put now d new = ⟨.done now new, .writing new, d⟩ := by
          cases h with
          | autocommit => exact absurd rfl hopen
          | _ => rfl
        simp only [hput]
        exact ⟨.refl, hok now d new hfits hf⟩

end Safe

/-! ## Every client keeps its part -/

section Sound

variable {G : δ → δ → Prop}

/-- What a call can do to its connection and to the durable data. To write it
needs the lock, and so no other connection has it. -/
inductive Handle.Effect (locked : Bool) (d : δ) (h : Handle δ) : Handle δ → δ → Prop
  | same : Effect locked d h h d
  | ended : Effect locked d h .autocommit d
  | begun : Effect locked d h .deferred d
  | snapshot : Effect locked d h (.reading d) d
  | wrote (copy : δ) : (locked = true → h.isWriting = true) →
      Effect locked d h (.writing copy) d
  | durable (new : δ) : (locked = true → h.isWriting = true) → Effect locked d h .autocommit new

theorem Handle.write_effect (locked : Bool) (now : τ) (f : δ → Option δ) (d : δ) (h : Handle δ) :
    Effect locked d h (h.write locked now f d).handle (h.write locked now f d).committed := by
  rw [Handle.write]
  cases hbase : h.base locked d with
  | none => exact .same
  | some b =>
      have hlock : locked = true → h.isWriting = true := by
        intro hlocked
        subst hlocked
        cases h with
        | writing copy => rfl
        | _ => exact nomatch hbase
      simp only
      cases f b with
      | none => exact .same
      | some new =>
          cases h with
          | autocommit => exact .durable new hlock
          | _ => exact .wrote new hlock

theorem Handle.call_effect (locked : Bool) (o : Outcome τ) (k : Verb)
    (w : Option (τ → δ → Option δ)) (d : δ) (h : Handle δ) :
    Effect locked d h (h.call locked o k w d).handle (h.call locked o k w d).committed := by
  cases o with
  | failure => exact .same
  | aborted => exact .ended
  | success now =>
      cases k with
      | host => exact .same
      | begin =>
          cases h with
          | autocommit => exact .begun
          | _ => exact .same
      | commit =>
          cases h with
          | autocommit => exact .same
          | writing copy => exact .durable copy fun _ => rfl
          | _ => exact .ended
      | rollback => cases h <;> exact .ended
      | statement =>
          cases w with
          | none =>
              cases h with
              | deferred => exact .snapshot
              | _ => exact .same
          | some f => exact h.write_effect locked now (f now) d

omit [DecidableEq δ] in
/-- A client that has met the data goes on to meet them. -/
theorem Handle.Effect.fits {locked : Bool} {seen d d' : δ} {h h' : Handle δ}
    (heff : Effect locked d h h' d') (hfits : h.Fits G seen d) : h'.Fits G d' d' := by
  cases heff with
  | same => exact hfits.self
  | snapshot => exact ⟨.refl, fun s hs => Handle.reading.inj hs ▸ .refl, fun _ => rfl⟩
  | _ => exact ⟨.refl, by simp, fun _ => rfl⟩

omit [DecidableEq δ] in
theorem Handle.Effect.unlocked {locked : Bool} {d d' : δ} {h h' : Handle δ}
    (heff : Effect locked d h h' d') (hlocked : locked = true) (hh : h.isWriting = false) :
    d' = d ∧ h'.isWriting = false := by
  cases heff with
  | same => exact ⟨rfl, hh⟩
  | wrote copy hlock =>
      rw [hlock hlocked] at hh
      cases hh
  | durable new hlock =>
      rw [hlock hlocked] at hh
      cases hh
  | _ => exact ⟨rfl, rfl⟩

/-- At most one client has the lock, and each goes on safely from what it met. -/
structure System.Sound (G : δ → δ → Prop) (s : System ι τ δ α) : Prop where
  writer : ∀ i j, (s.client i).handle.isWriting = true → (s.client j).handle.isWriting = true →
    i = j
  client : ∀ i, ∃ seen, (s.client i).handle.Fits G seen s.committed ∧
    ∀ p, (s.client i).task = some p →
      Safe G (fun _ _ _ => True) p seen (s.client i).handle

omit [Fintype ι] [DecidableEq ι] in
theorem System.sound_idle (d : δ) : (System.idle d : System ι τ δ α).Sound G where
  writer _ _ hi := nomatch hi
  client _ := ⟨d, ⟨.refl, by simp [System.idle], fun _ => rfl⟩, by simp [System.idle]⟩

omit [DecidableEq δ] in
theorem System.locked_eq_true {s : System ι τ δ α} {i : ι} :
    s.locked i = true ↔ ∃ j, j ≠ i ∧ (s.client j).handle.isWriting = true := by
  rw [System.locked, decide_eq_true_iff]

variable {s : System ι τ δ α} {i : ι}

/-- One client moves, and no other one loses what it stands on. -/
theorem System.Sound.update (hs : s.Sound G) {d : δ} {c : Client τ δ α}
    (hstep : Relation.ReflGen G s.committed d)
    (hlock : s.locked i = true → d = s.committed ∧ c.handle.isWriting = false)
    (hfits : c.handle.Fits G d d)
    (hsafe : ∀ p, c.task = some p → Safe G (fun _ _ _ => True) p d c.handle) :
    System.Sound G ⟨d, Function.update s.client i c⟩ := by
  have hother : ∀ j, j ≠ i → Function.update s.client i c j = s.client j :=
    fun j hj => Function.update_of_ne hj _ _
  have hfree : c.handle.isWriting = true → ∀ j, j ≠ i →
      (s.client j).handle.isWriting = true → False := by
    intro hc j hj hwriting
    rw [(hlock (System.locked_eq_true.mpr ⟨j, hj, hwriting⟩)).2] at hc
    cases hc
  constructor
  · intro j k hj hk
    by_cases hji : j = i
    · by_cases hki : k = i
      · rw [hji, hki]
      · simp only [hother k hki] at hk
        simp only [hji, Function.update_self] at hj
        exact (hfree hj k hki hk).elim
    · simp only [hother j hji] at hj
      by_cases hki : k = i
      · simp only [hki, Function.update_self] at hk
        exact (hfree hk j hji hj).elim
      · simp only [hother k hki] at hk
        exact hs.writer j k hj hk
  · intro j
    by_cases hji : j = i
    · subst hji
      simp only [Function.update_self]
      exact ⟨d, hfits, hsafe⟩
    · simp only [hother j hji]
      obtain ⟨seen, hseen, htask⟩ := hs.client j
      have hd := hstep.to_reflTransGen
      refine ⟨seen, ⟨hseen.later.trans hd, ?_, ?_⟩, htask⟩
      · intro snapshot hsnap
        exact (hseen.snapshot snapshot hsnap).trans hd
      · -- whoever has the lock sees nothing change
        intro hwriting
        rw [(hlock (System.locked_eq_true.mpr ⟨j, hji, hwriting⟩)).1]
        exact hseen.base hwriting

theorem System.step_call {program : Prog Verb τ δ α} {o : Outcome τ} {k : Verb}
    {w : Option (τ → δ → Option δ)} {cont : Reply τ δ → Prog Verb τ δ α}
    (htask : (s.client i).task = some (.call k w cont)) :
    s.step program (.call i o) =
      let r := (s.client i).handle.call (s.locked i) o k w s.committed
      ⟨r.committed, Function.update s.client i ⟨r.handle, some (cont r.reply)⟩⟩ := by
  simp only [System.step, htask]

theorem System.Sound.step {origin : δ} {program : Prog Verb τ δ α} (hs : s.Sound G)
    (hnow : Relation.ReflTransGen G origin s.committed)
    (hprog : ∀ seen h, Relation.ReflTransGen G origin seen →
      Safe G (fun _ _ _ => True) program seen h) (m : Move ι τ) :
    (s.step program m).Sound G ∧ Relation.ReflGen G s.committed (s.step program m).committed := by
  have hquiet : ∀ i c, (c.handle = (s.client i).handle ∨ c.handle = .autocommit) →
      (∀ p, c.task = some p → Safe G (fun _ _ _ => True) p s.committed c.handle) →
      (s.setClient i c).Sound G := by
    intro i c hc hsafe
    obtain ⟨seen, hfits, -⟩ := hs.client i
    refine hs.update .refl ?_ ?_ hsafe
    · intro hlocked
      obtain ⟨j, hj, hwriting⟩ := System.locked_eq_true.mp hlocked
      refine ⟨rfl, ?_⟩
      obtain hc | hc := hc
      · rw [hc, Bool.eq_false_iff]
        exact fun hi => hj (hs.writer j i hwriting hi)
      · rw [hc]
        rfl
    · obtain hc | hc := hc
      · rw [hc]
        exact hfits.self
      · rw [hc]
        exact ⟨.refl, by simp, fun _ => rfl⟩
  cases m with
  | reopen i => exact ⟨hquiet i ⟨.autocommit, none⟩ (.inr rfl) (by simp), .refl⟩
  | start i =>
      simp only [System.step]
      split
      · refine ⟨hquiet i ⟨_, some program⟩ (.inl rfl) fun p hp => ?_, .refl⟩
        rw [← Option.some.inj hp]
        exact hprog _ _ hnow
      · exact ⟨hs, .refl⟩
  | finish i =>
      simp only [System.step]
      split
      · exact ⟨hquiet i ⟨_, none⟩ (.inl rfl) (by simp), .refl⟩
      · exact ⟨hs, .refl⟩
  | call i o =>
      rw [System.step]
      split
      · next k w cont htask =>
          obtain ⟨seen, hfits, hsafe⟩ := hs.client i
          obtain ⟨hG, hcont⟩ := hsafe _ htask (s.locked i) o s.committed hfits
          have heff := (s.client i).handle.call_effect (s.locked i) o k w s.committed
          refine ⟨hs.update hG ?_ (heff.fits hfits) fun p hp => ?_, hG⟩
          · intro hlocked
            obtain ⟨j, hj, hwriting⟩ := System.locked_eq_true.mp hlocked
            have hfree : (s.client i).handle.isWriting = false :=
              Bool.eq_false_iff.mpr fun hi => hj (hs.writer j i hwriting hi)
            exact heff.unlocked hlocked hfree
          · rw [← Option.some.inj hp]
            exact hcont
      · exact ⟨hs, .refl⟩

/-- Safe programs, raced against each other: at every move nothing becomes
durable but by a step of `G`. -/
theorem System.Sound.run {origin : δ} {program : Prog Verb τ δ α} (hs : s.Sound G)
    (hnow : Relation.ReflTransGen G origin s.committed)
    (hprog : ∀ seen h, Relation.ReflTransGen G origin seen →
      Safe G (fun _ _ _ => True) program seen h) (moves : List (Move ι τ)) :
    (s.run program moves).Sound G ∧
      Relation.ReflTransGen G s.committed (s.run program moves).committed := by
  induction moves generalizing s with
  | nil => exact ⟨hs, .refl⟩
  | cons m moves ih =>
      obtain ⟨hsound, hG⟩ := hs.step hnow hprog m
      obtain ⟨hrun, hlater⟩ := ih hsound (hnow.trans hG.to_reflTransGen)
      exact ⟨hrun, hG.to_reflTransGen.trans hlater⟩

/-- A client that is alone meets the data as it left them. -/
theorem System.safe_calls {Q : α → δ → Handle δ → Prop} {program : Prog Verb τ δ α}
    (os : List (Outcome τ)) {p : Prog Verb τ δ α} (htask : (s.client i).task = some p)
    (hfits : (s.client i).handle.Fits G s.committed s.committed)
    (hsafe : Safe G Q p s.committed (s.client i).handle) :
    ∃ p', ((s.run program (os.map (.call i))).client i).task = some p' ∧
      Safe G Q p' (s.run program (os.map (.call i))).committed
        ((s.run program (os.map (.call i))).client i).handle := by
  induction os generalizing s p with
  | nil => exact ⟨p, htask, hsafe⟩
  | cons o os ih =>
      rw [List.map_cons, System.run, List.foldl_cons]
      cases p with
      | ret a =>
          have hstep : s.step program (.call i o) = s := by
            simp only [System.step, htask]
          rw [hstep]
          exact ih htask hfits hsafe
      | call k w cont =>
          obtain ⟨hG, hcont⟩ := hsafe (s.locked i) o s.committed hfits
          have heff := (s.client i).handle.call_effect (s.locked i) o k w s.committed
          rw [System.step_call htask]
          generalize (s.client i).handle.call (s.locked i) o k w s.committed = r at hcont heff ⊢
          refine ih (p := cont r.reply) ?_ ?_ ?_
          · simp only [Function.update_self]
          · simpa only [Function.update_self] using heff.fits hfits
          · simpa only [Function.update_self] using hcont

/-- A program that runs while the others wait comes to its end with what it was
shown safe for. -/
theorem System.safe_alone {Q : α → δ → Handle δ → Prop} {program : Prog Verb τ δ α}
    (htask : (s.client i).task = none)
    (hfits : (s.client i).handle.Fits G s.committed s.committed)
    (hsafe : Safe G Q program s.committed (s.client i).handle) {os : List (Outcome τ)} {a : α}
    (hret : ((s.run program (System.alone i os)).client i).returned = some a) :
    Q a (s.run program (System.alone i os)).committed
      ((s.run program (System.alone i os)).client i).handle := by
  have hrun : s.run program (System.alone i os) =
      (s.setClient i ⟨(s.client i).handle, some program⟩).run program (os.map (.call i)) := by
    rw [System.alone, System.run, List.foldl_cons, System.step, htask]
    rfl
  rw [hrun] at hret ⊢
  have hclient : (s.setClient i ⟨(s.client i).handle, some program⟩).client i =
      ⟨(s.client i).handle, some program⟩ := Function.update_self _ _ _
  generalize hs₁ : s.setClient i ⟨(s.client i).handle, some program⟩ = s₁ at hret hclient ⊢
  have hsame : s₁.committed = s.committed := by rw [← hs₁, System.setClient]
  obtain ⟨p, hp, hQ⟩ : ∃ p, ((s₁.run program (os.map (.call i))).client i).task = some p ∧
      Safe G Q p (s₁.run program (os.map (.call i))).committed
        ((s₁.run program (os.map (.call i))).client i).handle := by
    refine System.safe_calls os (congrArg Client.task hclient) ?_ ?_
    · rw [hclient, hsame]
      exact hfits
    · rw [hclient, hsame]
      exact hsafe
  rw [Client.returned, hp] at hret
  cases p with
  | ret b =>
      cases hret
      exact hQ
  | call k w cont => cases hret

end Sound

end Lib.Race
