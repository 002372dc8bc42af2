import ForgeswornLink.CardRotation
import ForgeswornLink.SendOutcome
import ForgeswornLink.TagNetwork
import Mathlib.Data.List.Infix

/-!
# Who sent a datagram that is attributed to a peer

A `SendTag` is in the queue of a driver or on its wire only because the driver was
asked to send it; a `RecvTag` is at the relay or on a wire only because the relay
read the `SendTag` of a driver or of a stranger. The tag of a datagram that is
handed up is one of the material that the book holds for the peer it is handed up
from, so the sender held the same material, and its name for the other end says
who it was. A driver that has reconnected may be sent its own datagrams.
-/

namespace ForgeswornLink
open ByteString Runs

namespace RelayDriver

theorem outbound_step_sublist (d : RelayDriver) (book : Option TagBook) (now : ℕ)
    (e : DriverEvent) :
    (d.step book now e).outbound.Sublist d.outbound := by
  cases e with
  | sent =>
    simp only [step]
    split_ifs
    · exact List.tail_sublist _
    · exact List.Sublist.refl _
  | _ =>
    simp only [step, finish]
    split_ifs <;> simp [outbound_setStatus]

theorem outbound_trySend_tag (P : Primitives) (hostOf : String → Option String) (d : RelayDriver)
    (book : TagBook) (destination : NodeId) (datagram : List UInt8) (nowUnix : ℕ) :
    (d.trySend P hostOf (some book) destination datagram nowUnix).1.outbound = d.outbound ∨
      ∃ host tag, d.currentHost hostOf = some host ∧
        (book.tagForSend P destination host nowUnix).2 = some tag ∧
        (d.trySend P hostOf (some book) destination datagram nowUnix).1.outbound =
          d.outbound ++ [.sendTag tag datagram] := by
  unfold trySend
  split
  · exact Or.inl rfl
  · simp only [tagFor_eq]
    cases hhost : d.currentHost hostOf with
    | none => exact Or.inl rfl
    | some host =>
      rcases htag : book.tagForSend P destination host nowUnix with ⟨next, _ | tag⟩
      · simp only [htag, true_or]
      · simp only [htag, enqueue]
        split
        · exact Or.inl rfl
        · split
          · exact Or.inr ⟨host, tag, rfl, by rw [htag], rfl⟩
          · split <;> exact Or.inl rfl

end RelayDriver

namespace Relay
variable {r : Relay} {tag : Tag} {datagram : List UInt8}

def Carries (r : Relay) (tag : Tag) (datagram : List UInt8) : Prop :=
  (∃ id, ∃ p ∈ r.deliveriesOf id, p.2 = .recvTag tag datagram) ∨
    ∃ q, r.Queued q (.recvTag tag datagram)

theorem carries_step (P : Primitives) (config : RelayConfig) (hsound : r.registry.Sound)
    (e : RelayEvent) (h : (r.step P config e).Carries tag datagram) :
    r.Carries tag datagram ∨ ∃ id message, e = .receive id message true ∧
      decodeBinary message = some (.sendTag tag datagram) := by
  rcases h with ⟨id, p, hp, hframe⟩ | ⟨q, hq⟩
  · cases deliveryMove_step P config id hsound e with
    | still _ hsame => exact Or.inl (Or.inl ⟨id, p, hsame ▸ hp, hframe⟩)
    | gone _ hnone =>
      rw [hnone] at hp
      cases hp
    | handed _ htail =>
      rw [htail] at hp
      exact Or.inl (Or.inl ⟨id, p, List.mem_of_mem_tail hp, hframe⟩)
    | found _ _ hlooked =>
      have hlook := hlooked p hp
      rw [hframe] at hlook
      cases hlook with
      | sendTag _ _ hmessage _ _ => exact Or.inr ⟨id, _, rfl, hmessage⟩
  · rcases queues_step P config r e q _ hq with hold | hnotice | ⟨id, -, rest, hrest⟩
    · exact Or.inl (Or.inr ⟨q, hold⟩)
    · cases hnotice
    · refine Or.inl (Or.inl ⟨id, (q, .recvTag tag datagram), ?_, rfl⟩)
      rw [hrest]
      exact List.mem_cons_self

end Relay

def GoesUp (wires : Table ℕ Wire) (frame : Frame) : Prop :=
  ∃ id w, wires.lookup id = some w ∧ ∃ bytes ∈ w.up, Frame.decode bytes = some frame

def GoesDown (wires : Table ℕ Wire) (frame : Frame) : Prop :=
  ∃ id w, wires.lookup id = some w ∧ ∃ bytes ∈ w.down, Frame.decode bytes = some frame

section Wires
variable {wires : Table ℕ Wire} {id : ℕ} {w : Wire} {frame other : Frame}

theorem crosses_insert (side : Wire → List (List UInt8))
    (h : ∃ j w', (wires.insert id w).lookup j = some w' ∧
      ∃ bytes ∈ side w', Frame.decode bytes = some frame) :
    (∃ bytes ∈ side w, Frame.decode bytes = some frame) ∨
      ∃ j w', wires.lookup j = some w' ∧ ∃ bytes ∈ side w', Frame.decode bytes = some frame := by
  obtain ⟨j, w', hw', hbytes⟩ := h
  rw [Table.lookup_insert_ite] at hw'
  split at hw'
  · cases hw'
    exact Or.inl hbytes
  · exact Or.inr ⟨j, w', hw', hbytes⟩

theorem goesUp_insert (h : GoesUp (wires.insert id w) frame) :
    (∃ bytes ∈ w.up, Frame.decode bytes = some frame) ∨ GoesUp wires frame :=
  crosses_insert Wire.up h

theorem goesDown_insert (h : GoesDown (wires.insert id w) frame) :
    (∃ bytes ∈ w.down, Frame.decode bytes = some frame) ∨ GoesDown wires frame :=
  crosses_insert Wire.down h

theorem eq_of_decode_encode (h : Frame.decode frame.encode = some other) : frame = other :=
  Frame.encode_injective (Frame.decode_eq_some.mp h).1

theorem mem_decode_snoc {stream : List (List UInt8)}
    (h : ∃ bytes ∈ stream ++ [other.encode], Frame.decode bytes = some frame) :
    (∃ bytes ∈ stream, Frame.decode bytes = some frame) ∨ other = frame := by
  obtain ⟨bytes, hbytes, hdecode⟩ := h
  rcases List.mem_append.mp hbytes with hbytes | hbytes
  · exact Or.inl ⟨bytes, hbytes, hdecode⟩
  · rw [List.mem_singleton.mp hbytes] at hdecode
    exact Or.inr (eq_of_decode_encode hdecode)

end Wires

namespace TagNetwork
variable {ι κ : Type} {n : TagNetwork ι κ} {tag : Tag} {datagram : List UInt8}

def Sends (n : TagNetwork ι κ) (tag : Tag) (datagram : List UInt8) : Prop :=
  (∃ i, .sendTag tag datagram ∈ (n.drivers i).outbound) ∨ GoesUp n.wires (.sendTag tag datagram)

def Receives (n : TagNetwork ι κ) (tag : Tag) (datagram : List UInt8) : Prop :=
  n.relay.Carries tag datagram ∨ GoesDown n.wires (.recvTag tag datagram)

theorem sendUp_eq (n : TagNetwork ι κ) (id : ℕ) (frame : Frame) :
    n.sendUp id frame = { n with wires := (n.sendUp id frame).wires } := by
  unfold sendUp
  split <;> rfl

theorem sends_sendUp {id : ℕ} {frame : Frame} (h : (n.sendUp id frame).Sends tag datagram) :
    n.Sends tag datagram ∨ frame = .sendTag tag datagram := by
  rcases h with hdriver | hup
  · rw [sendUp_eq] at hdriver
    exact Or.inl (Or.inl hdriver)
  · unfold sendUp at hup
    split at hup
    · rename_i w hw
      rcases goesUp_insert hup with hbytes | hold
      · exact (mem_decode_snoc hbytes).imp_left fun hbytes => Or.inr ⟨id, w, hw, hbytes⟩
      · exact Or.inl (Or.inr hold)
    · exact Or.inl (Or.inr hup)

theorem receives_sendUp {id : ℕ} {frame : Frame} (h : (n.sendUp id frame).Receives tag datagram) :
    n.Receives tag datagram := by
  rcases h with hcarries | hdown
  · rw [sendUp_eq] at hcarries
    exact Or.inl hcarries
  · unfold sendUp at hdown
    split at hdown
    · rename_i w hw
      rcases goesDown_insert hdown with hbytes | hold
      · exact Or.inr ⟨id, w, hw, hbytes⟩
      · exact Or.inr hold
    · exact Or.inr hdown

theorem nextDown_eq_some {i : ι} {id : ℕ} {w : Wire} {bytes : List UInt8}
    (h : n.nextDown i = some (id, w, bytes)) :
    n.session i = some id ∧ (n.drivers i).phase = .pumping ∧
      n.wires.lookup id = some { w with down := bytes :: w.down } := by
  unfold nextDown at h
  split at h
  · rename_i j hsession hphase
    split at h
    · rename_i up first rest hwire
      cases h
      exact ⟨hsession, hphase, hwire⟩
    · cases h
  · cases h

variable [DecidableEq ι]
variable {P : Primitives} {config : RelayConfig} {hostOf : String → Option String} {owner : ι → κ}

theorem sends_task {i : ι} {now : ℕ} {e : DriverEvent}
    (h : (n.task owner i now e).Sends tag datagram) :
    n.Sends tag datagram := by
  rcases h with ⟨j, hj⟩ | hup
  · simp only [task, Function.update_apply] at hj
    split at hj
    · rename_i hji
      subst hji
      exact Or.inl ⟨j, (RelayDriver.outbound_step_sublist _ _ _ _).subset hj⟩
    · exact Or.inl ⟨j, hj⟩
  · exact Or.inr hup

variable [DecidableEq κ]

theorem sends_take {i : ι} {nowUnix now : ℕ} {frame : Option Frame}
    (h : (n.take P hostOf owner i nowUnix now frame).Sends tag datagram) :
    n.Sends tag datagram := by
  unfold take at h
  split at h
  · exact h
  · exact h
  · exact sends_task h
  · exact sends_task h

theorem receives_take {i : ι} {nowUnix now : ℕ} {frame : Option Frame}
    (h : (n.take P hostOf owner i nowUnix now frame).Receives tag datagram) :
    n.Receives tag datagram := by
  unfold take at h
  split at h <;> exact h

/-- The driver takes the datagram for the destination and sends it under the tag. -/
def Offers (hostOf : String → Option String) (owner : ι → κ) (n : TagNetwork ι κ)
    (e : NetworkEvent ι κ) (j : ι) (destination : NodeId) (material : Material) (host : String)
    (epoch : ℕ) (datagram : List UInt8) : Prop :=
  ∃ nowUnix, e = .trySend j destination datagram nowUnix ∧
    (n.drivers j).currentHost hostOf = some host ∧
    ((n.books (owner j)).pruneExpired nowUnix).chosen destination = some material ∧
    epoch = epochIndex nowUnix

theorem sends_trySend (hexact : ∀ k, (n.books k).CacheExact P) {i : ι} {destination : NodeId}
    {contents : List UInt8} {nowUnix : ℕ}
    (h : (n.trySend P hostOf owner i destination contents nowUnix).Sends tag datagram) :
    n.Sends tag datagram ∨ ∃ material host epoch,
      n.Offers hostOf owner (.trySend i destination contents nowUnix) i destination material host
        epoch datagram ∧ tag = material.tag P host epoch := by
  rcases h with ⟨j, hj⟩ | hup
  · simp only [trySend, setBook, Function.update_apply] at hj
    split at hj
    · rename_i hji
      subst hji
      rcases RelayDriver.outbound_trySend_tag P hostOf (n.drivers j) (n.books (owner j)) destination
        contents nowUnix with hsame | ⟨host, tag', hhost, htag, hqueued⟩
      · exact Or.inl (Or.inl ⟨j, hsame ▸ hj⟩)
      · rw [hqueued] at hj
        rcases List.mem_append.mp hj with hold | hnew
        · exact Or.inl (Or.inl ⟨j, hold⟩)
        · cases List.mem_singleton.mp hnew
          rw [TagBook.tagForSend_eq (hexact _), TagBook.derive_eq, Option.map_eq_some_iff] at htag
          obtain ⟨material, hchosen, htag⟩ := htag
          exact Or.inr ⟨material, host, _, ⟨nowUnix, rfl, hhost, hchosen, rfl⟩, htag.symm⟩
    · exact Or.inl (Or.inl ⟨j, hj⟩)
  · exact Or.inl (Or.inr hup)

theorem sends_step (hexact : ∀ k, (n.books k).CacheExact P) (e : NetworkEvent ι κ)
    (h : (n.step P config hostOf owner e).Sends tag datagram) :
    n.Sends tag datagram ∨ ∃ j destination material host epoch,
      n.Offers hostOf owner e j destination material host epoch datagram ∧
        tag = material.tag P host epoch := by
  cases e with
  | book k e => exact Or.inl h
  | relay e =>
    simp only [step] at h
    split at h <;> exact Or.inl h
  | dial i source challenge nowUnix listed =>
    refine Or.inl ?_
    simp only [step, dial] at h
    split at h
    · split at h
      · split at h
        · exact h
        · rcases h with hdriver | hup
          · exact Or.inl hdriver
          · rcases goesUp_insert hup with ⟨bytes, hbytes, -⟩ | hold
            · cases hbytes
            · exact Or.inr hold
      · exact h
    · exact h
  | welcome i now =>
    simp only [step, welcome] at h
    split at h
    · split at h
      · exact Or.inl (sends_task h)
      · exact Or.inl h
    · exact Or.inl h
  | task i now e =>
    simp only [step] at h
    split at h
    · exact Or.inl (sends_task h)
    · exact Or.inl h
  | register i nowUnix listed =>
    simp only [step, register] at h
    split at h
    · split at h
      · rcases sends_sendUp h with hold | hframe
        · exact Or.inl hold
        · cases hframe
      · exact Or.inl h
    · exact Or.inl h
  | trySend i destination contents nowUnix =>
    rcases sends_trySend hexact h with hold | ⟨material, host, epoch, hoffer⟩
    · exact Or.inl hold
    · exact Or.inr ⟨i, destination, material, host, epoch, hoffer⟩
  | write i now =>
    simp only [step, write] at h
    split at h
    · rename_i id frame rest hsession hphase hqueue
      rcases sends_sendUp h with hold | hframe
      · exact Or.inl (sends_task hold)
      · refine Or.inl (Or.inl ⟨i, ?_⟩)
        rw [hqueue, hframe]
        exact List.mem_cons_self
    · exact Or.inl h
  | carry id allowed =>
    refine Or.inl ?_
    simp only [step, carry] at h
    split at h
    · rename_i w hw
      split at h
      · rename_i bytes rest hup
        split at h
        · rcases h with hdriver | hgoes
          · exact Or.inl hdriver
          · rcases goesUp_insert hgoes with ⟨b, hb, hdecode⟩ | hold
            · exact Or.inr ⟨id, w, hw, b, by rw [hup]; exact List.mem_cons_of_mem _ hb, hdecode⟩
            · exact Or.inr hold
        · exact h
      · exact h
    · exact h
  | drain id written =>
    refine Or.inl ?_
    simp only [step, drain] at h
    split at h
    · rename_i w frame hw hnext
      rcases h with hdriver | hgoes
      · exact Or.inl hdriver
      · split at hgoes
        · rcases goesUp_insert hgoes with hbytes | hold
          · exact Or.inr ⟨id, w, hw, hbytes⟩
          · exact Or.inr hold
        · exact Or.inr hgoes
    · exact h
  | read i nowUnix now =>
    refine Or.inl ?_
    simp only [step, read] at h
    split at h
    · rename_i id w bytes hnext
      rcases sends_take h with hdriver | hgoes
      · exact Or.inl hdriver
      · rcases goesUp_insert hgoes with hbytes | hold
        · exact Or.inr ⟨id, _, (nextDown_eq_some hnext).2.2, hbytes⟩
        · exact Or.inr hold
    · exact h

/-- A stranger's session sends the datagram under the tag. -/
def Injects (n : TagNetwork ι κ) (e : NetworkEvent ι κ) (tag : Tag) (datagram : List UInt8) :
    Prop :=
  ∃ id message, e = .relay (.receive id message true) ∧ n.wires.lookup id = none ∧
    decodeBinary message = some (.sendTag tag datagram)

theorem receives_step (hsound : n.relay.registry.Sound) (e : NetworkEvent ι κ)
    (h : (n.step P config hostOf owner e).Receives tag datagram) :
    n.Receives tag datagram ∨ n.Sends tag datagram ∨ n.Injects e tag datagram := by
  cases e with
  | book k e => exact Or.inl h
  | relay e =>
    simp only [step] at h
    split at h
    · rename_i hstranger
      rcases h with hcarries | hdown
      · rcases Relay.carries_step P config hsound e hcarries with hold | ⟨id, message, rfl, hframe⟩
        · exact Or.inl (Or.inl hold)
        · exact Or.inr (Or.inr ⟨id, message, rfl, Option.isNone_iff_eq_none.mp hstranger, hframe⟩)
      · exact Or.inl (Or.inr hdown)
    · exact Or.inl h
  | dial i source challenge nowUnix listed =>
    refine Or.inl ?_
    simp only [step, dial] at h
    split at h
    · split at h
      · split at h
        · exact h
        · rcases h with hcarries | hdown
          · rcases Relay.carries_step P config hsound (.arrive source challenge _) hcarries with
              hold | ⟨id, message, hevent, -⟩
            · exact Or.inl hold
            · cases hevent
          · rcases goesDown_insert hdown with ⟨bytes, hbytes, -⟩ | hold
            · cases hbytes
            · exact Or.inr hold
      · exact h
    · exact h
  | welcome i now =>
    simp only [step, welcome] at h
    split at h
    · split at h <;> exact Or.inl h
    · exact Or.inl h
  | task i now e =>
    simp only [step] at h
    split at h <;> exact Or.inl h
  | register i nowUnix listed =>
    simp only [step, register] at h
    split at h
    · split at h
      · have hbefore := receives_sendUp h
        exact Or.inl hbefore
      · exact Or.inl h
    · exact Or.inl h
  | trySend i destination contents nowUnix => exact Or.inl h
  | write i now =>
    simp only [step, write] at h
    split at h
    · have hbefore := receives_sendUp h
      exact Or.inl hbefore
    · exact Or.inl h
  | carry id allowed =>
    simp only [step, carry] at h
    split at h
    · rename_i w hw
      split at h
      · rename_i bytes rest hup
        split at h
        · rcases h with hcarries | hdown
          · rcases Relay.carries_step P config hsound (.receive id (.binary bytes) allowed)
              hcarries with hold | ⟨j, message, hevent, hframe⟩
            · exact Or.inl (Or.inl hold)
            · cases hevent
              refine Or.inr (Or.inl (Or.inr ⟨id, w, hw, bytes, ?_, hframe⟩))
              rw [hup]
              exact List.mem_cons_self
          · rcases goesDown_insert hdown with hbytes | hold
            · exact Or.inl (Or.inr ⟨id, w, hw, hbytes⟩)
            · exact Or.inl (Or.inr hold)
        · exact Or.inl h
      · exact Or.inl h
    · exact Or.inl h
  | drain id written =>
    refine Or.inl ?_
    simp only [step, drain] at h
    split at h
    · rename_i w frame hw hnext
      rcases h with hcarries | hdown
      · rcases Relay.carries_step P config hsound (.drain id written) hcarries with
          hold | ⟨j, message, hevent, -⟩
        · exact Or.inl hold
        · cases hevent
      · split at hdown
        · rcases goesDown_insert hdown with hbytes | hold
          · rcases mem_decode_snoc hbytes with hbytes | rfl
            · exact Or.inr ⟨id, w, hw, hbytes⟩
            · exact Or.inl (Or.inr ⟨id, Relay.queued_of_nextFrame hnext⟩)
          · exact Or.inr hold
        · exact Or.inr hdown
    · exact h
  | read i nowUnix now =>
    refine Or.inl ?_
    simp only [step, read] at h
    split at h
    · rename_i id w bytes hnext
      rcases receives_take h with hcarries | hdown
      · exact Or.inl hcarries
      · rcases goesDown_insert hdown with ⟨b, hb, hdecode⟩ | hold
        · exact Or.inr ⟨id, _, (nextDown_eq_some hnext).2.2, b, List.mem_cons_of_mem _ hb, hdecode⟩
        · exact Or.inr hold
    · exact h

/-! ### Books and relay in every run -/

variable (P config hostOf owner) in
theorem relay_step (n : TagNetwork ι κ) (e : NetworkEvent ι κ) :
    (n.step P config hostOf owner e).relay = n.relay ∨
      ∃ e', (n.step P config hostOf owner e).relay = n.relay.step P config e' := by
  cases e with
  | book k e => exact Or.inl rfl
  | relay e =>
    simp only [step]
    split
    · exact Or.inr ⟨e, rfl⟩
    · exact Or.inl rfl
  | dial i source challenge nowUnix listed =>
    simp only [step, dial]
    split
    · split
      · split
        · exact Or.inl rfl
        · exact Or.inr ⟨.arrive source challenge _, rfl⟩
      · exact Or.inl rfl
    · exact Or.inl rfl
  | welcome i now =>
    simp only [step, welcome]
    split
    · split <;> exact Or.inl rfl
    · exact Or.inl rfl
  | task i now e =>
    simp only [step]
    split <;> exact Or.inl rfl
  | register i nowUnix listed =>
    simp only [step, register]
    split
    · split
      · rw [sendUp_eq]
        exact Or.inl rfl
      · exact Or.inl rfl
    · exact Or.inl rfl
  | trySend i destination contents nowUnix => exact Or.inl rfl
  | write i now =>
    simp only [step, write]
    split
    · rw [sendUp_eq]
      exact Or.inl rfl
    · exact Or.inl rfl
  | carry id allowed =>
    simp only [step, carry]
    split
    · split
      · rename_i bytes rest hup
        split
        · exact Or.inr ⟨.receive id (.binary bytes) allowed, rfl⟩
        · exact Or.inl rfl
      · exact Or.inl rfl
    · exact Or.inl rfl
  | drain id written =>
    simp only [step, drain]
    split
    · exact Or.inr ⟨.drain id written, rfl⟩
    · exact Or.inl rfl
  | read i nowUnix now =>
    simp only [step, read]
    split
    · unfold take
      split <;> exact Or.inl rfl
    · exact Or.inl rfl

omit [DecidableEq ι] in
theorem cacheExact_setBook {k : κ} {book : TagBook} (h : ∀ k, (n.books k).CacheExact P)
    (hbook : book.CacheExact P) (k' : κ) : ((n.setBook k book).books k').CacheExact P := by
  simp only [setBook, Function.update_apply]
  split
  · exact hbook
  · exact h k'

theorem cacheExact_step (h : ∀ k, (n.books k).CacheExact P) (e : NetworkEvent ι κ) (k : κ) :
    ((n.step P config hostOf owner e).books k).CacheExact P := by
  have hpruned (i : ι) (nowUnix : ℕ) : ((n.books (owner i)).pruneExpired nowUnix).CacheExact P :=
    TagBook.cacheExact_pruneExpired (h _) nowUnix
  cases e with
  | book k' e => exact cacheExact_setBook h (TagBook.cacheExact_step (h k') e) k
  | relay e =>
    simp only [step]
    split <;> exact h k
  | dial i source challenge nowUnix listed =>
    simp only [step, dial]
    split
    · split
      · split <;> exact cacheExact_setBook h (hpruned i nowUnix) k
      · exact h k
    · exact h k
  | welcome i now =>
    simp only [step, welcome]
    split
    · split <;> exact h k
    · exact h k
  | task i now e =>
    simp only [step]
    split <;> exact h k
  | register i nowUnix listed =>
    simp only [step, register]
    split
    · split
      · rw [sendUp_eq]
        exact cacheExact_setBook h (hpruned i nowUnix) k
      · exact h k
    · exact h k
  | trySend i destination contents nowUnix =>
    have hbook : (((n.drivers i).trySend P hostOf (some (n.books (owner i))) destination contents
        nowUnix).2.1.getD (n.books (owner i))).CacheExact P := by
      rcases @RelayDriver.trySend_book P hostOf (n.drivers i) destination nowUnix
        (some (n.books (owner i))) contents with hsame | ⟨b, host, hb, hnext⟩
      · rw [hsame]
        exact h _
      · cases hb
        rw [hnext]
        exact TagBook.cacheExact_tagForSend (h _) destination host nowUnix
    exact cacheExact_setBook h hbook k
  | write i now =>
    simp only [step, write]
    split
    · rw [sendUp_eq]
      exact h k
    · exact h k
  | carry id allowed =>
    simp only [step, carry]
    split
    · split
      · split <;> exact h k
      · exact h k
    · exact h k
  | drain id written =>
    simp only [step, drain]
    split <;> exact h k
  | read i nowUnix now =>
    simp only [step, read]
    split
    · unfold take
      split
      · exact cacheExact_setBook h (hpruned i nowUnix) k
      · exact h k
      · exact h k
      · exact h k
    · exact h k

section Runs
variable (peers : κ → Table NodeId RendezvousPeer) (paired : κ → Table NodeId (Block 32))
  (urls : ι → List String)

structure Regular (P : Primitives) (n : TagNetwork ι κ) : Prop where
  cacheExact : ∀ k, (n.books k).CacheExact P
  registry : n.relay.registry.Sound

omit [DecidableEq ι] [DecidableEq κ] in
theorem regular_start : (start peers paired urls).Regular P where
  cacheExact := by
    intro k peer epoch tag h
    simp [start, TagBook.withPaired] at h
  registry := Registry.sound_start

theorem Regular.step (h : n.Regular P) (e : NetworkEvent ι κ) :
    (n.step P config hostOf owner e).Regular P := by
  refine ⟨cacheExact_step h.cacheExact e, ?_⟩
  rcases relay_step P config hostOf owner n e with hsame | ⟨e', hstep⟩
  · rw [hsame]
    exact h.registry
  · rw [hstep]
    exact h.registry.move (Relay.move_step P config n.relay e')

variable (P config hostOf owner) in
theorem regular_run (es : List (NetworkEvent ι κ)) :
    (run (step P config hostOf owner) (start peers paired urls) es).Regular P :=
  invariant _ (regular_start peers paired urls) (fun _ e h => h.step e) es

theorem once_sent (es : List (NetworkEvent ι κ))
    (h : (run (step P config hostOf owner) (start peers paired urls) es).Receives tag datagram) :
    Once (step P config hostOf owner) (fun n e => n.Injects e tag datagram ∨
      ∃ j destination material host epoch,
        n.Offers hostOf owner e j destination material host epoch datagram ∧
          tag = material.tag P host epoch) (start peers paired urls) es := by
  refine once_of_holds (step P config hostOf owner)
    (p := fun n => n.Sends tag datagram ∨ n.Receives tag datagram)
    (regular_run P config hostOf owner peers paired urls) ?_ ?_ (Or.inr h)
  · rintro ((⟨i, hi⟩ | ⟨id, w, hw, -⟩) | (⟨id, p, hp, -⟩ | ⟨q, s, hs, -⟩) | ⟨id, w, hw, -⟩)
    · cases hi
    · cases hw
    · cases hp
    · cases hs
    · cases hw
  · rintro t e ht (hsends | hreceives)
    · rcases sends_step ht.cacheExact e hsends with hold | hoffer
      · exact Or.inl (Or.inl hold)
      · exact Or.inr (Or.inr hoffer)
    · rcases receives_step ht.registry e hreceives with hold | hold | hinject
      · exact Or.inl (Or.inr hold)
      · exact Or.inl (Or.inl hold)
      · exact Or.inr (Or.inl hinject)

end Runs

/-! ### The two ends of a pair -/

omit [DecidableEq ι] [DecidableEq κ] in
theorem receives_of_mayHandUp {i : ι} {nowUnix now : ℕ} {peer : NodeId}
    (h : (peer, datagram) ∈ n.mayHandUp P hostOf owner (.read i nowUnix now)) :
    ∃ material epoch, ((n.books (owner i)).pruneExpired nowUnix).Holds peer material ∧
      epoch ∈ TagBook.window nowUnix ∧
      n.Receives (material.tag P (n.host hostOf i) epoch) datagram := by
  simp only [mayHandUp] at h
  split at h
  · rename_i id w bytes hnext
    split at h
    · rename_i tag contents hframe
      obtain ⟨source, hsource, hpair⟩ := List.mem_map.mp h
      cases hpair
      obtain ⟨material, epoch, hholds, hepoch, htag⟩ := TagBook.holding_of_candidate hsource
      refine ⟨material, epoch, TagBook.mem_holdings.mp hholds, hepoch, ?_⟩
      rw [htag]
      exact Or.inr ⟨id, _, (nextDown_eq_some hnext).2.2, bytes, List.mem_cons_self, hframe⟩
    · cases h
  · cases h

/-- At some point of the run the endpoint has the material for the peer. -/
def Knows (P : Primitives) (config : RelayConfig) (hostOf : String → Option String) (owner : ι → κ)
    (n : TagNetwork ι κ) (es : List (NetworkEvent ι κ)) (k : κ) (peer : NodeId)
    (material : Material) : Prop :=
  ∃ pre, pre <+: es ∧ ((run (step P config hostOf owner) n pre).books k).Holds peer material

/-- A datagram that is handed up as one of a peer was sent by the other end of the pair, or by this
endpoint itself, under material that is this endpoint's for the peer; or by a stranger who has a tag
of it. Of that material it is assumed that what else the datagram was sent with gives other tags,
and that besides this endpoint only `other` ever has it. -/
theorem attributed_datagram_was_sent (P : Primitives) (config : RelayConfig)
    (hostOf : String → Option String) (owner : ι → κ) (peers : κ → Table NodeId RendezvousPeer)
    (paired : κ → Table NodeId (Block 32)) (urls : ι → List String) (es : List (NetworkEvent ι κ))
    (n : TagNetwork ι κ) (hn : n = run (step P config hostOf owner) (start peers paired urls) es)
    (i : ι) (other : κ) (nowUnix now : ℕ) (source : NodeId) (datagram : List UInt8)
    (hup : (source, datagram) ∈ n.mayHandUp P hostOf owner (.read i nowUnix now))
    (hdistinct : ∀ material, ((n.books (owner i)).pruneExpired nowUnix).Holds source material →
      ∀ epoch ∈ TagBook.window nowUnix, ∀ j destination material' host' epoch',
      Once (step P config hostOf owner)
        (fun n e => n.Offers hostOf owner e j destination material' host' epoch' datagram)
        (start peers paired urls) es →
      material.tag P (n.host hostOf i) epoch = material'.tag P host' epoch' → material = material')
    (hshared : ∀ material, ((n.books (owner i)).pruneExpired nowUnix).Holds source material →
      ∀ k peer, Knows P config hostOf owner (start peers paired urls) es k peer material →
      k = owner i ∨ k = other) :
    (∃ material, ((n.books (owner i)).pruneExpired nowUnix).Holds source material ∧
      ∃ epoch ∈ TagBook.window nowUnix, Once (step P config hostOf owner)
        (fun m e => m.Injects e (material.tag P (n.host hostOf i) epoch) datagram)
        (start peers paired urls) es) ∨
    ∃ material, ((n.books (owner i)).pruneExpired nowUnix).Holds source material ∧
      ∃ pre j destination sentAt post, es = pre ++ .trySend j destination datagram sentAt :: post ∧
        ((run (step P config hostOf owner) (start peers paired urls) pre).books (owner j)).Holds
          destination material ∧
        (owner j = other ∨ owner j = owner i) := by
  obtain ⟨material, epoch, hholds, hepoch, hreceives⟩ := receives_of_mayHandUp hup
  have hbefore := hreceives
  rw [hn] at hbefore
  obtain ⟨pre, e, post, rfl, hinject | ⟨j, destination, material', host, epoch', hoffer, htag⟩⟩ :=
    once_sent peers paired urls es hbefore
  · rw [← hn] at hinject
    exact Or.inl ⟨material, hholds, epoch, hepoch, pre, e, post, rfl, hinject⟩
  · rw [← hn] at htag
    obtain rfl : material = material' :=
      hdistinct material hholds epoch hepoch j destination material' host epoch'
        ⟨pre, e, post, rfl, hoffer⟩ htag
    obtain ⟨sentAt, rfl, -, hchosen, -⟩ := hoffer
    have hsender : ((run (step P config hostOf owner) (start peers paired urls) pre).books
        (owner j)).Holds destination material :=
      TagBook.holds_of_pruneExpired
        (TagBook.mem_holdings.mp (TagBook.mem_holdings_of_chosen hchosen))
    have hend := hshared material hholds (owner j) destination
      ⟨pre, List.prefix_append _ _, hsender⟩
    exact Or.inr ⟨material, hholds, pre, j, destination, sentAt, post, rfl, hsender, hend.symm⟩

section Example

def exampleSource : IpAddr := .v4 (readBlock 4 [10] 0)

/-- The drivers of two ends connect; `listed` is how each of them lists its tags. -/
def exampleDialled (listed : Bool → List Tag) : List (NetworkEvent Bool Bool) :=
  [.relay (.accept exampleSource), .dial true exampleSource (readBlock 32 [] 0) 4000 (listed true),
    .relay (.enter 1), .welcome true 0,
    .relay (.accept exampleSource),
    .dial false exampleSource (readBlock 32 [] 0) 4000 (listed false),
    .relay (.enter 2), .welcome false 0]

/-- What an end calls the route of a pairing is its own. -/
def exampleRoute (k : Bool) : NodeId := TagBook.nodeOf (if k then 1 else 2)

def examplePairing (k : Bool) : TagBook.BookEvent :=
  .change (.registerPairing (exampleRoute k) (readBlock 16 [8] 0) 9000)

def exampleTags : List Tag := [0, 1, 2].map (derivePairingTag .standIn (readBlock 16 [8] 0) "")

def exampleSent : List (NetworkEvent Bool Bool) :=
  .book true (examplePairing true) :: .book false (examplePairing false) ::
    exampleDialled (fun k => if k then exampleTags else exampleTags.reverse) ++
    [.trySend true (exampleRoute true) [5] 4000, .write true 1, .carry 1 true, .relay (.deliver 1),
      .relay (.deliver 1), .drain 2 true]

def exampleAfter : List (NetworkEvent Bool Bool) → TagNetwork Bool Bool :=
  run (step .standIn .default (fun _ => some "") id)
    (start (fun _ => ∅) (fun _ => ∅) fun _ => ["wss://relay"])

theorem example_holdings : ∀ pre ∈ exampleSent.inits, ∀ k,
    ∀ h ∈ ((exampleAfter pre).books k).holdings,
    h = (exampleRoute k, .pairing (readBlock 16 [8] 0)) := by
  decide +kernel

theorem example_holds {pre : List (NetworkEvent Bool Bool)} {k : Bool} {peer : NodeId}
    {material : Material} (hpre : pre <+: exampleSent)
    (h : ((exampleAfter pre).books k).Holds peer material) :
    peer = exampleRoute k ∧ material = .pairing (readBlock 16 [8] 0) := by
  have heq := example_holdings pre ((List.mem_inits _ _).mpr hpre) k _ (TagBook.mem_holdings.mpr h)
  exact ⟨congrArg Prod.fst heq, congrArg Prod.snd heq⟩

theorem example_datagram_was_sent :
    (exampleRoute false, [5]) ∈
        (exampleAfter exampleSent).mayHandUp .standIn (fun _ => some "") id (.read false 4000 2) ∧
      ∃ pre j sentAt post, exampleSent = pre ++ .trySend j (exampleRoute j) [5] sentAt :: post := by
  have hup : (exampleRoute false, [5]) ∈
      (exampleAfter exampleSent).mayHandUp .standIn (fun _ => some "") id (.read false 4000 2) := by
    decide +kernel
  refine ⟨hup, ?_⟩
  have hsent := attributed_datagram_was_sent .standIn .default (fun _ => some "") id (fun _ => ∅)
    (fun _ => ∅) (fun _ => ["wss://relay"]) exampleSent _ rfl false true 4000 2
    (exampleRoute false) [5] hup ?_ ?_
  · rcases hsent with ⟨-, -, -, -, pre, e, post, hsplit, id, message, rfl, -⟩ |
      ⟨material, -, pre, j, destination, sentAt, post, hsplit, hholds, -⟩
    · -- no stranger's session takes part in this run
      have hmem : .relay (.receive id message true) ∈ exampleSent := by rw [hsplit]; simp
      simp [exampleSent, exampleDialled] at hmem
    · obtain ⟨rfl, -⟩ := example_holds ⟨_, hsplit.symm⟩ hholds
      exact ⟨pre, j, sentAt, post, hsplit⟩
  · rintro material hholds epoch - j destination material' host' epoch'
      ⟨pre, e, post, hsplit, sentAt, rfl, -, hchosen, -⟩ -
    have hheld := TagBook.mem_holdings.mp (TagBook.mem_holdings_of_chosen hchosen)
    rw [(example_holds (List.prefix_refl _) (TagBook.holds_of_pruneExpired hholds)).2,
      (example_holds ⟨_, hsplit.symm⟩ (TagBook.holds_of_pruneExpired hheld)).2]
  · rintro material - k peer -
    cases k
    · exact Or.inl rfl
    · exact Or.inr rfl

end Example

end TagNetwork
end ForgeswornLink
