import ForgeswornLink.SocketBook
import ForgeswornLink.SessionStages

/-!
# The durable secrets of an endpoint

Of all that happens to an endpoint only two operations of its book touch the table
of durable route secrets, and each writes one entry: `upsert_paired` sets it,
`remove_paired` clears it. No handler makes such an operation by itself, so the
table after any events of an endpoint is what those two leave of it.
-/

namespace ForgeswornLink
open Runs ByteString

abbrev SecretWrite := NodeId × Option (Block 32)

def written (secrets : NodeId → Option (Block 32)) (w : Option SecretWrite) (p : NodeId) :
    Option (Block 32) :=
  match w with
  | some (q, value) => if p = q then value else secrets p
  | none => secrets p

@[simp] theorem written_none (secrets : NodeId → Option (Block 32)) :
    written secrets none = secrets :=
  rfl

theorem run_written {ε : Type} (write : ε → Option SecretWrite) {es : List ε}
    (h : ∀ e ∈ es, write e = none) (secrets : NodeId → Option (Block 32)) :
    run (fun secrets e => written secrets (write e)) secrets es = secrets := by
  induction es with
  | nil => rfl
  | cons e es ih =>
    rw [run_cons, (List.forall_mem_cons.mp h).1, written_none, ih (List.forall_mem_cons.mp h).2]

namespace TagBook

def Op.write : Op → Option SecretWrite
  | .upsertPaired peer secret => some (peer, some secret)
  | .removePaired peer => some (peer, none)
  | _ => none

def BookEvent.write : BookEvent → Option SecretWrite
  | .change op => op.write
  | .send _ _ _ => none

def secretOf (book : TagBook) (p : NodeId) : Option (Block 32) := book.paired.lookup p

theorem paired_bumpIf (changed : TagBook × Bool) : (bumpIf changed).paired = changed.1.paired := by
  unfold bumpIf
  split <;> rfl

theorem paired_tagForSend (P : Primitives) (book : TagBook) (peer : NodeId) (relayHost : String)
    (nowUnix : ℕ) : (book.tagForSend P peer relayHost nowUnix).1.paired = book.paired := by
  rw [← (pruneExpired_rest book nowUnix).1]
  simp only [tagForSend]
  split
  · rfl
  · split <;> rfl

theorem paired_apply (book : TagBook) {op : Op} (h : op.write = none) :
    (book.apply op).paired = book.paired := by
  cases op with
  | upsertPaired peer secret => cases h
  | removePaired peer => cases h
  | upsert peer material => rfl
  | remove peer => rfl
  | registerPairing route secret expiresAt =>
    simp only [apply]
    split_ifs <;> rfl
  | removePairing route =>
    simp only [apply, removePairing_eq, paired_bumpIf]
    exact (tables_takeAdmission book route).1
  | promotePairing route secret generation nowUnix =>
    simp only [apply, promotePairing_eq, paired_bumpIf]
    rw [(tables_installLive _ route secret generation).1, (pruneExpired_rest book nowUnix).1]
  | removeLivePairing route generation =>
    simp only [apply, removeLivePairing_eq, paired_bumpIf]
    exact (tables_dropLive book route generation).1
  | prune nowUnix => exact (pruneExpired_rest book nowUnix).1

theorem secretOf_removePaired (book : TagBook) (peer : NodeId) :
    (book.removePaired peer).secretOf = written book.secretOf (some (peer, none)) := by
  funext p
  unfold removePaired
  split_ifs with hmem
  · exact Table.lookup_erase_ite book.paired peer p
  · simp only [written]
    split_ifs with hp
    · rw [hp, secretOf, AList.lookup_eq_none.mpr hmem]
    · rfl

theorem secretOf_step (P : Primitives) (book : TagBook) (e : BookEvent) :
    (book.step P e).secretOf = written book.secretOf e.write := by
  have hkept {next : TagBook} (h : next.paired = book.paired) : next.secretOf = book.secretOf := by
    funext p
    rw [secretOf, h]
    rfl
  cases e with
  | send peer relayHost nowUnix => exact hkept (paired_tagForSend P book peer relayHost nowUnix)
  | change op =>
    cases op with
    | upsertPaired peer secret =>
      funext p
      exact Table.lookup_insert_ite book.paired peer p secret
    | removePaired peer => exact secretOf_removePaired book peer
    | _ => exact hkept (paired_apply book rfl)

end TagBook

def Event.write : Event → Option SecretWrite
  | .book op => op.write
  | _ => none

def EndpointEvent.write : EndpointEvent → Option SecretWrite
  | .environment e => e.write
  | _ => none

namespace PathSocket
variable {P : Primitives} {hostOf : String → Option String}

def secretOf (s : PathSocket) (p : NodeId) : Option (Block 32) :=
  s.book.bind fun book => book.secretOf p

theorem book_isSome_step (s : PathSocket) (e : Event) :
    (s.step P hostOf e).book.isSome = s.book.isSome := by
  rw [book_step, TagBook.run_useIn, Option.isSome_map]

theorem write_bookEvents (s : PathSocket) {e : Event} (h : e.write = none) :
    ∀ use ∈ s.bookEvents hostOf e, use.write = none := by
  intro use huse
  have hread (d : RelayDriver) (p : NodeId) (hmem : use ∈ d.bookEvents hostOf p s.unixNow) :
      use.write = none := by
    unfold RelayDriver.bookEvents at hmem
    split_ifs at hmem
    · cases hmem
    · cases hstatus : d.status with
      | up url =>
        rw [hstatus] at hmem
        dsimp only at hmem
        cases hhost : hostOf url with
        | none =>
          rw [hhost] at hmem
          cases hmem
        | some host =>
          rw [hhost] at hmem
          rw [List.mem_singleton.mp hmem]
          rfl
      | _ =>
        rw [hstatus] at hmem
        cases hmem
  cases e with
  | book op =>
    rw [List.mem_singleton.mp huse]
    exact h
  | trySend destination contents result =>
    simp only [bookEvents] at huse
    split_ifs at huse
    · cases huse
    · split at huse
      · cases huse
      · split at huse
        · cases huse
        · exact hread _ _ huse
  | _ => cases huse

theorem secretOf_step {s : PathSocket} (hbook : s.book.isSome) (e : Event) :
    (s.step P hostOf e).secretOf = written s.secretOf e.write := by
  obtain ⟨book, hsome⟩ := Option.isSome_iff_exists.mp hbook
  have hafter : (s.step P hostOf e).secretOf =
      (run (TagBook.step P) book (s.bookEvents hostOf e)).secretOf := by
    funext p
    rw [secretOf, book_step, TagBook.run_useIn, hsome]
    rfl
  have hbefore : s.secretOf = book.secretOf := by
    funext p
    rw [secretOf, hsome]
    rfl
  rw [hafter, hbefore]
  cases hwrite : e.write with
  | none =>
    have hnone : ∀ use ∈ s.bookEvents hostOf e, use.write = none := write_bookEvents s hwrite
    generalize s.bookEvents hostOf e = uses at hnone
    clear hafter hbefore hsome
    induction uses generalizing book with
    | nil => rfl
    | cons use uses ih =>
      rw [run_cons, ih _ (List.forall_mem_cons.mp hnone).2, TagBook.secretOf_step,
        (List.forall_mem_cons.mp hnone).1]
      rfl
  | some w =>
    cases e with
    | book op =>
      rw [← hwrite]
      exact TagBook.secretOf_step P book (.change op)
    | _ => cases hwrite

variable (P hostOf) in
theorem secretOf_after {s : PathSocket} (hbook : s.book.isSome) (calls : List Event) :
    (after P hostOf s calls).book.isSome ∧
      (after P hostOf s calls).secretOf =
        run (fun secrets (c : Event) => written secrets c.write) s.secretOf calls := by
  induction calls generalizing s with
  | nil => exact ⟨hbook, rfl⟩
  | cons c calls ih =>
    have hfirst : (s.step P hostOf c).secretOf = written s.secretOf c.write := secretOf_step hbook c
    rw [after, run_cons, run_cons, ← hfirst]
    exact ih ((book_isSome_step s c).trans hbook)

end PathSocket

theorem Event.write_of_own {c : Event} (h : c.isOwn = true) : c.write = none := by
  cases c with
  | book op => cases op <;> first | rfl | cases h
  | _ => rfl

namespace Endpoint
variable {P : Primitives} {hostOf : String → Option String} {e : Endpoint}

theorem Moves.write {event : EndpointEvent} {t : Turn} (h : Moves P hostOf e event t)
    (hevent : ∀ c, event ≠ .environment c) : ∀ c ∈ t.calls, c.write = none :=
  fun c hc => Event.write_of_own (h.own hevent c hc)

theorem secretOf_step (hbook : e.socket.book.isSome) (event : EndpointEvent) :
    (e.step P hostOf event).socket.book.isSome ∧
      (e.step P hostOf event).socket.secretOf = written e.socket.secretOf event.write := by
  have hafter := PathSocket.secretOf_after P hostOf hbook (e.turn P hostOf event).calls
  refine ⟨hafter.1, hafter.2.trans ?_⟩
  by_cases hevent : ∃ c, event = .environment c
  · obtain ⟨c, rfl⟩ := hevent
    change run _ e.socket.secretOf (if c.isEnvironment then _ else e.stay : Turn).calls = _
    split_ifs with henv
    · rfl
    · have hnone : c.write = none := by
        cases c with
        | book op => exact absurd rfl henv
        | _ => rfl
      rw [EndpointEvent.write, hnone]
      rfl
  · have hnone : event.write = none := by
      cases event with
      | environment c => exact absurd ⟨c, rfl⟩ hevent
      | _ => rfl
    rw [hnone, written_none]
    exact run_written Event.write ((moves_turn e event).write fun c heq => hevent ⟨c, heq⟩) _

def secretsAfter (secrets : NodeId → Option (Block 32)) (events : List EndpointEvent) :
    NodeId → Option (Block 32) :=
  run (fun secrets event => written secrets event.write) secrets events

variable (P hostOf) in
theorem secretOf_run (hbook : e.socket.book.isSome) (events : List EndpointEvent) :
    (run (step P hostOf) e events).socket.book.isSome ∧
      (run (step P hostOf) e events).socket.secretOf = secretsAfter e.socket.secretOf events := by
  induction events generalizing e with
  | nil => exact ⟨hbook, rfl⟩
  | cons event events ih =>
    obtain ⟨hbook', hfirst⟩ : (e.step P hostOf event).socket.book.isSome ∧ _ :=
      secretOf_step hbook event
    rw [secretsAfter, run_cons, run_cons, ← hfirst]
    exact ih hbook'

end Endpoint

end ForgeswornLink
