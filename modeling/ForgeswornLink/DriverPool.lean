import ForgeswornLink.Lib.Sections
import ForgeswornLink.RelayClient

/-!
# The relay pool at lock granularity

`driver_for` and `close` run on any number of threads. Both hold the lock of the
extra drivers to their end, but the home list is compared before it, the id comes
from an atomic, and a new driver is spawned, put among the extra drivers and put
in `by_id` one after the other. `by_id` is written and walked only under the lock
of the extra drivers, so its own lock adds no section.

A driver is a set of shared cells, and a clone of it is a handle to them: its
position among the drivers created so far. The home driver is the first.
-/

namespace ForgeswornLink
open Runs Sections

structure PooledDriver where
  id : ℕ
  urls : List String
  stop : Bool

structure SharedPool where
  created : List PooledDriver
  extra : Table (List String) ℕ
  byId : Table ℕ ℕ
  nextId : ℕ
  -- The thread that has the extra drivers locked.
  holder : Option ℕ

/-- The order a hash map is walked in: any, and another one at each walk. -/
structure WalkOrder where
  order : List ℕ → List ℕ
  perm : ∀ handles, (order handles).Perm handles

inductive PoolSection where
  | compare (urls : List String)
  | enter (urls : List String)
  | checkStop (urls : List String)
  | find (urls : List String)
  | number (urls : List String)
  | spawnDriver (id : ℕ) (urls : List String)
  | insertExtra (id : ℕ) (urls : List String) (handle : ℕ)
  | insertById (id : ℕ) (urls : List String) (handle : ℕ)
  | leave
  | enterClose (order : WalkOrder)
  | walk (order : WalkOrder)
  | stopOne (handle : ℕ)
  | leaveClose

inductive PoolAnswer where
  | driver (urls : List String) (handle : ℕ)
  | closed
  deriving DecidableEq

inductive PoolCall where
  | driverFor (urls : List String)
  | close (order : WalkOrder)

def PoolCall.body : PoolCall → List PoolSection
  | .driverFor urls => [.compare urls]
  | .close order => [.enterClose order]

namespace SharedPool

def spawn (urls : List String) : SharedPool where
  created := [⟨0, urls, false⟩]
  extra := ∅
  byId := AList.singleton 0 0
  nextId := 1
  holder := none

def urlsOf (s : SharedPool) (handle : ℕ) : List String :=
  (s.created[handle]?).elim [] PooledDriver.urls

def stopped (s : SharedPool) (handle : ℕ) : Bool := (s.created[handle]?).any PooledDriver.stop

def handles (s : SharedPool) : List ℕ := s.byId.entries.map Sigma.snd

def stopOne (s : SharedPool) (handle : ℕ) : SharedPool :=
  { s with created := s.created.modify handle fun d => { d with stop := true } }

abbrev PoolOutcome := Outcome SharedPool PoolSection PoolAnswer

def find (s : SharedPool) (urls : List String) : PoolOutcome :=
  match s.extra.lookup urls with
  | some handle => ⟨s, [.leave], some (.driver urls handle)⟩
  | none =>
    if s.extra.entries.length ≥ maxExtraDrivers then ⟨s, [.leave], some (.driver urls 0)⟩
    else ⟨s, [.number urls], none⟩

def exec (t : ℕ) (s : SharedPool) : PoolSection → Option PoolOutcome
  | .compare urls =>
    if urls = [] ∨ urls = s.urlsOf 0 then some ⟨s, [], some (.driver urls 0)⟩
    else some ⟨s, [.enter urls], none⟩
  | .enter urls =>
    if s.holder = none then some ⟨{ s with holder := some t }, [.checkStop urls], none⟩ else none
  | .checkStop urls =>
    if s.stopped 0 then some ⟨s, [.leave], some (.driver urls 0)⟩ else some ⟨s, [.find urls], none⟩
  | .find urls => some (s.find urls)
  | .number urls => some ⟨{ s with nextId := s.nextId + 1 }, [.spawnDriver s.nextId urls], none⟩
  | .spawnDriver id urls =>
    some ⟨{ s with created := s.created ++ [⟨id, urls, false⟩] },
      [.insertExtra id urls s.created.length], none⟩
  | .insertExtra id urls handle =>
    some ⟨{ s with extra := s.extra.insert urls handle }, [.insertById id urls handle], none⟩
  | .insertById id urls handle =>
    some ⟨{ s with byId := s.byId.insert id handle }, [.leave], some (.driver urls handle)⟩
  | .leave => some ⟨{ s with holder := none }, [], none⟩
  | .enterClose order =>
    if s.holder = none then some ⟨{ s with holder := some t }, [.walk order, .leaveClose],
      none⟩ else none
  | .walk order => some ⟨s, (order.order s.handles).map .stopOne, none⟩
  | .stopOne handle => some ⟨s.stopOne handle, [], none⟩
  | .leaveClose => some ⟨{ s with holder := none }, [], some .closed⟩

abbrev moves (pool : Pool SharedPool PoolSection PoolAnswer) (ms : List (Move PoolCall)) :
    Pool SharedPool PoolSection PoolAnswer := run (step PoolCall.body exec) pool ms

/-! ### The shape of the pool -/

def AllStopped (s : SharedPool) : Prop := ∀ d ∈ s.created, d.stop = true

/-- Every driver is numbered by its position; the extra drivers are those below `known` and the
drivers of `by_id` those below `listed`. -/
structure Shape (s : SharedPool) (known listed : ℕ) : Prop where
  home : 0 < s.created.length
  within : known ≤ s.created.length
  numbered : ∀ (handle : ℕ) (d : PooledDriver), s.created[handle]? = some d → d.id = handle
  extra : ∀ urls handle, s.extra.lookup urls = some handle ↔
    0 < handle ∧ handle < known ∧ ∃ d, s.created[handle]? = some d ∧ d.urls = urls
  byId : ∀ id handle, s.byId.lookup id = some handle ↔ id = handle ∧ handle < listed
  size : s.extra.entries.length + 1 = known
  bound : known ≤ maxExtraDrivers + 1

structure Settled (s : SharedPool) : Prop where
  shape : Shape s s.created.length s.created.length
  next : s.nextId = s.created.length
  stops : s.stopped 0 = true → s.AllStopped

inductive Outside : List PoolSection → Prop
  | idle : Outside []
  | compare (urls : List String) : Outside [.compare urls]
  | enter (urls : List String) : Outside [.enter urls]
  | enterClose (order : WalkOrder) : Outside [.enterClose order]

structure Wanted (s : SharedPool) (urls : List String) : Prop where
  running : s.stopped 0 = false
  new : s.extra.lookup urls = none
  room : s.extra.entries.length < maxExtraDrivers

inductive Inside (s : SharedPool) : List PoolSection → Prop
  | checkStop {urls : List String} (h : s.Settled) : Inside s [.checkStop urls]
  | find {urls : List String} (h : s.Settled) (hrunning : s.stopped 0 = false) :
      Inside s [.find urls]
  | number {urls : List String} (h : s.Settled) (hwanted : s.Wanted urls) : Inside s [.number urls]
  | spawnDriver {urls : List String} (h : s.Shape s.created.length s.created.length)
      (hnext : s.nextId = s.created.length + 1) (hwanted : s.Wanted urls) :
    Inside s [.spawnDriver s.created.length urls]
  | insertExtra {urls : List String} {n : ℕ} (h : s.Shape n n) (hlength : s.created.length = n + 1)
      (hnext : s.nextId = n + 1) (hwanted : s.Wanted urls)
      (hlast : ∃ d, s.created[n]? = some d ∧ d.urls = urls) :
    Inside s [.insertExtra n urls n]
  | insertById {urls : List String} {n : ℕ} (h : s.Shape (n + 1) n)
      (hlength : s.created.length = n + 1) (hnext : s.nextId = n + 1)
      (hrunning : s.stopped 0 = false) (hfound : s.extra.lookup urls = some n) :
    Inside s [.insertById n urls n]
  | leave (h : s.Settled) : Inside s [.leave]
  | walk {order : WalkOrder} (h : s.Settled) : Inside s [.walk order, .leaveClose]
  | stopping {left : List ℕ} (h : s.Shape s.created.length s.created.length)
      (hnext : s.nextId = s.created.length)
      (hcover : ∀ (handle : ℕ) (d : PooledDriver),
        s.created[handle]? = some d → d.stop = true ∨ handle ∈ left) :
    Inside s (left.map .stopOne ++ [.leaveClose])

def lock : Lock SharedPool PoolSection where
  holder := SharedPool.holder
  Free := Settled
  Outside := Outside
  Inside := Inside

theorem settled_spawn (urls : List String) : (spawn urls).Settled where
  shape :=
    { home := Nat.one_pos
      within := le_rfl
      numbered := by
        intro handle d hd
        rcases handle with _ | handle <;> simp [spawn] at hd
        rw [← hd]
      extra := by
        intro list handle
        constructor
        · intro h
          simp [spawn] at h
        · rintro ⟨hpos, hlt, _⟩
          simp [spawn] at hlt
          omega
      byId := by
        intro id handle
        rw [show (spawn urls).byId = AList.insert 0 0 ∅ from rfl, Table.lookup_insert_ite]
        simp only [spawn, AList.lookup_empty, List.length_singleton, Nat.lt_one_iff]
        by_cases hid : id = 0
        · subst hid
          simp [eq_comm]
        · simp [hid]
          omega
      size := rfl
      bound := by simp [spawn, maxExtraDrivers] }
  next := rfl
  stops := by simp [spawn, stopped]

theorem stopped_zero {s : SharedPool} {known listed : ℕ} (h : s.Shape known listed)
    (hstop : s.AllStopped) :
    s.stopped 0 = true := by
  have hhome := h.home
  have hget : s.created[0]? = some s.created[0] := List.getElem?_eq_getElem hhome
  rw [stopped, hget]
  exact hstop _ (List.getElem_mem hhome)

/-! ### What each section does to the shape -/

theorem Shape.keep {s s' : SharedPool} {known listed : ℕ} (h : s.Shape known listed)
    (hcreated : s'.created = s.created) (hextra : s'.extra = s.extra) (hbyId : s'.byId = s.byId) :
    s'.Shape known listed where
  home := hcreated ▸ h.home
  within := hcreated ▸ h.within
  numbered := hcreated ▸ h.numbered
  extra := hcreated ▸ hextra ▸ h.extra
  byId := hbyId ▸ h.byId
  size := hextra ▸ h.size
  bound := h.bound

theorem Settled.held {s : SharedPool} (h : s.Settled) (holder : Option ℕ) :
    ({ s with holder := holder } : SharedPool).Settled :=
  ⟨h.shape.keep rfl rfl rfl, h.next, h.stops⟩

theorem Shape.spawnDriver {s : SharedPool} (h : s.Shape s.created.length s.created.length)
    (urls : List String) :
    ({ s with created := s.created ++ [⟨s.created.length, urls, false⟩] } : SharedPool).Shape
      s.created.length s.created.length where
  home := by simp
  within := by simp
  numbered := by
    intro handle d hd
    rw [List.getElem?_append] at hd
    split at hd
    · exact h.numbered handle d hd
    · rename_i hge
      obtain ⟨hlt, hget⟩ := List.getElem?_eq_some_iff.mp hd
      rw [List.length_singleton] at hlt
      rw [← hget, List.getElem_singleton]
      simp only
      omega
  extra := by
    intro list handle
    rw [h.extra list handle]
    refine and_congr_right fun _ => and_congr_right fun hlt => ?_
    rw [List.getElem?_append_left hlt]
  byId := h.byId
  size := h.size
  bound := h.bound

theorem Shape.insertExtra {s : SharedPool} {n : ℕ} {urls : List String} (h : s.Shape n n)
    (hlast : ∃ d, s.created[n]? = some d ∧ d.urls = urls) (hwanted : s.Wanted urls) :
    ({ s with extra := s.extra.insert urls n } : SharedPool).Shape (n + 1) n where
  home := h.home
  within := by
    obtain ⟨d, hd, _⟩ := hlast
    exact (List.getElem?_eq_some_iff.mp hd).1
  numbered := h.numbered
  extra := by
    intro list handle
    rw [Table.lookup_insert_ite]
    obtain ⟨d, hd, hurls⟩ := hlast
    have hpos : 0 < n := by have := h.size; omega
    by_cases hlist : list = urls
    · -- No older driver is over this list, or the lookup would have found it.
      subst hlist
      have hnone : ∀ older, ¬ (0 < older ∧ older < n ∧
          ∃ d, s.created[older]? = some d ∧ d.urls = list) := by
        intro older holder
        have := (h.extra list older).mpr holder
        rw [hwanted.new] at this
        cases this
      rw [if_pos rfl]
      constructor
      · intro heq
        cases heq
        exact ⟨hpos, Nat.lt_succ_self n, d, hd, hurls⟩
      · rintro ⟨hzero, hlt, hover⟩
        have hge : ¬ handle < n := fun hlt' => hnone handle ⟨hzero, hlt', hover⟩
        rw [show n = handle by omega]
    · rw [if_neg hlist, h.extra list handle]
      refine and_congr_right fun _ =>
        ⟨fun ⟨hlt, hover⟩ => ⟨by omega, hover⟩, fun ⟨hlt, hover⟩ => ⟨?_, hover⟩⟩
      by_contra hge
      obtain ⟨d', hd', hurls'⟩ := hover
      rw [show handle = n by omega, hd] at hd'
      cases hd'
      exact hlist (hurls'.symm.trans hurls)
  byId := h.byId
  size := by
    have hfresh : urls ∉ s.extra := AList.lookup_eq_none.mp hwanted.new
    change (s.extra.insert urls n).entries.length + 1 = n + 1
    rw [AList.insert_of_notMem hfresh, List.length_cons, h.size]
  bound := by
    have hsize := h.size
    have hroom := hwanted.room
    omega

theorem Shape.insertById {s : SharedPool} {n : ℕ} (h : s.Shape (n + 1) n) :
    ({ s with byId := s.byId.insert n n } : SharedPool).Shape (n + 1) (n + 1) where
  home := h.home
  within := h.within
  numbered := h.numbered
  extra := h.extra
  byId := by
    intro id handle
    rw [Table.lookup_insert_ite]
    by_cases hid : id = n
    · subst hid
      rw [if_pos rfl]
      constructor
      · intro heq
        cases heq
        exact ⟨rfl, Nat.lt_succ_self id⟩
      · rintro ⟨rfl, _⟩
        rfl
    · rw [if_neg hid, h.byId id handle]
      omega
  size := h.size
  bound := h.bound

theorem getElem?_stopOne (s : SharedPool) (handle other : ℕ) :
    (s.stopOne handle).created[other]? =
      (s.created[other]?).map fun d => if handle = other then { d with stop := true } else d := by
  rw [stopOne, List.getElem?_modify]
  by_cases heq : handle = other <;> simp [heq]

theorem length_stopOne (s : SharedPool) (handle : ℕ) :
    (s.stopOne handle).created.length = s.created.length := by
  rw [stopOne, List.length_modify]

theorem Shape.stopOne {s : SharedPool} {known listed : ℕ} (h : s.Shape known listed) (handle : ℕ) :
    (s.stopOne handle).Shape known listed where
  home := (s.length_stopOne handle).symm ▸ h.home
  within := (s.length_stopOne handle).symm ▸ h.within
  numbered := by
    intro other d hd
    rw [getElem?_stopOne, Option.map_eq_some_iff] at hd
    obtain ⟨d', hd', rfl⟩ := hd
    rw [apply_ite PooledDriver.id, ite_self]
    exact h.numbered other d' hd'
  extra := by
    intro urls other
    refine (h.extra urls other).trans (and_congr_right fun _ => and_congr_right fun _ => ?_)
    rw [getElem?_stopOne]
    simp only [Option.map_eq_some_iff]
    constructor
    · rintro ⟨d, hd, hurls⟩
      exact ⟨_, ⟨d, hd, rfl⟩, by rw [apply_ite PooledDriver.urls, ite_self, hurls]⟩
    · rintro ⟨_, ⟨d, hd, rfl⟩, hurls⟩
      rw [apply_ite PooledDriver.urls, ite_self] at hurls
      exact ⟨d, hd, hurls⟩
  byId := h.byId
  size := h.size
  bound := h.bound

theorem mem_handles (s : SharedPool) (handle : ℕ) :
    handle ∈ s.handles ↔ ∃ id, s.byId.lookup id = some handle := by
  simp only [handles, List.mem_map]
  constructor
  · rintro ⟨⟨id, _⟩, hmem, rfl⟩
    exact ⟨id, AList.mem_lookup_iff.mpr hmem⟩
  · rintro ⟨id, hid⟩
    exact ⟨⟨id, handle⟩, AList.mem_lookup_iff.mp hid, rfl⟩

/-! ### What stays -/

structure Later (s s' : SharedPool) : Prop where
  extra : ∀ urls handle, s.extra.lookup urls = some handle → s'.extra.lookup urls = some handle
  created : s.AllStopped → s'.created = s.created

theorem later_of_eq {s s' : SharedPool} (hextra : s'.extra = s.extra)
    (hcreated : s'.created = s.created) :
    Later s s' := ⟨fun _ _ h => hextra ▸ h, fun _ => hcreated⟩

theorem Later.trans {s s' s'' : SharedPool} (h : Later s s') (h' : Later s' s'') : Later s s'' := by
  refine ⟨fun urls handle hs => h'.extra urls handle (h.extra urls handle hs), fun hstop => ?_⟩
  have hcreated := h.created hstop
  have hstop' : s'.AllStopped := by rwa [AllStopped, hcreated]
  rw [h'.created hstop', hcreated]

theorem Later.allStopped {s s' : SharedPool} (h : Later s s') (hstop : s.AllStopped) :
    s'.AllStopped := by
  rwa [AllStopped, h.created hstop]

theorem later_insertExtra {s : SharedPool} {urls : List String} (hnew : s.extra.lookup urls = none)
    (handle : ℕ) : Later s { s with extra := s.extra.insert urls handle } := by
  refine ⟨fun list older hlist => ?_, fun _ => rfl⟩
  change (s.extra.insert urls handle).lookup list = some older
  rw [Table.lookup_insert_ite, if_neg, hlist]
  rintro rfl
  rw [hnew] at hlist
  cases hlist

theorem later_stopOne (s : SharedPool) (handle : ℕ) : Later s (s.stopOne handle) := by
  refine ⟨fun _ _ h => h, fun hstop => ?_⟩
  apply List.ext_getElem?
  intro other
  rw [getElem?_stopOne]
  cases hget : s.created[other]? with
  | none => rfl
  | some d =>
    have hd : d.stop = true := hstop d (List.mem_of_getElem? hget)
    simp [← hd]

/-- What an answer says: the driver is the extra driver over the list unless it is the home driver,
and every driver is stopped once a close has returned. -/
def Good (s : SharedPool) : PoolAnswer → Prop
  | .driver urls handle => handle ≠ 0 → s.extra.lookup urls = some handle
  | .closed => s.AllStopped

theorem Later.good {s s' : SharedPool} (h : Later s s') {a : PoolAnswer} (ha : s.Good a) :
    s'.Good a := by
  cases a with
  | driver urls handle => exact fun hne => h.extra urls handle (ha hne)
  | closed => exact h.allStopped ha

theorem good_home (s : SharedPool) (urls : List String) : s.Good (.driver urls 0) :=
  fun hne => absurd rfl hne

/-! ### One section -/

structure Advances (t : ℕ) (s : SharedPool) (rest : List PoolSection) (o : PoolOutcome) : Prop where
  next : (o.shared.holder = some t ∧ o.shared.Inside (o.more ++ rest)) ∨
    (o.shared.holder = none ∧ o.shared.Settled ∧ Outside (o.more ++ rest))
  later : Later s o.shared
  good : ∀ a, o.answer = some a → o.shared.Good a

theorem stopped_append (s : SharedPool) (hhome : 0 < s.created.length) (d : PooledDriver) :
    ({ s with created := s.created ++ [d] } : SharedPool).stopped 0 = s.stopped 0 := by
  simp only [stopped, List.getElem?_append_left hhome]

theorem Settled.walk_covers {s : SharedPool} (h : s.Settled) (order : WalkOrder) {handle : ℕ}
    {d : PooledDriver} (hd : s.created[handle]? = some d) : handle ∈ order.order s.handles := by
  rw [(order.perm s.handles).mem_iff, mem_handles]
  exact ⟨handle, (h.shape.byId handle handle).mpr ⟨rfl, (List.getElem?_eq_some_iff.mp hd).1⟩⟩

theorem advances_find {s : SharedPool} {t : ℕ} {urls : List String} (hholder : s.holder = some t)
    (h : s.Settled) (hrunning : s.stopped 0 = false) : Advances t s [] (s.find urls) := by
  unfold find
  split
  · rename_i handle hfound
    refine ⟨Or.inl ⟨hholder, .leave h⟩, later_of_eq rfl rfl, fun a ha => ?_⟩
    cases ha
    exact fun _ => hfound
  · rename_i hnew
    split
    · refine ⟨Or.inl ⟨hholder, .leave h⟩, later_of_eq rfl rfl, fun a ha => ?_⟩
      cases ha
      exact s.good_home urls
    · rename_i hroom
      have hwanted : s.Wanted urls := ⟨hrunning, hnew, by omega⟩
      exact ⟨Or.inl ⟨hholder, .number h hwanted⟩, later_of_eq rfl rfl, by rintro a ⟨⟩⟩

theorem advances_stopping {s : SharedPool} (left : List ℕ)
    (h : s.Shape s.created.length s.created.length) (hnext : s.nextId = s.created.length)
    (hcover : ∀ (handle : ℕ) (d : PooledDriver),
      s.created[handle]? = some d → d.stop = true ∨ handle ∈ left)
    {t : ℕ} {i : PoolSection} {rest : List PoolSection} {o : PoolOutcome}
    (hholder : s.holder = some t) (htodo : i :: rest = left.map .stopOne ++ [.leaveClose])
    (hexec : exec t s i = some o) :
    Advances t s rest o := by
  cases left with
  | nil =>
    cases htodo
    cases hexec
    have hstop : s.AllStopped := by
      intro d hd
      obtain ⟨handle, hget⟩ := List.mem_iff_getElem?.mp hd
      exact (hcover handle d hget).resolve_right List.not_mem_nil
    refine ⟨Or.inr ⟨rfl, ⟨h.keep rfl rfl rfl, hnext, fun _ => hstop⟩, .idle⟩, later_of_eq rfl rfl,
      fun a ha => ?_⟩
    cases ha
    exact hstop
  | cons handle left =>
    cases htodo
    cases hexec
    refine ⟨Or.inl ⟨hholder, @Inside.stopping _ left ?_ ?_ ?_⟩,
      s.later_stopOne handle, by rintro a ⟨⟩⟩
    · rw [length_stopOne]
      exact h.stopOne handle
    · rw [length_stopOne]
      exact hnext
    · intro other d hd
      rw [getElem?_stopOne, Option.map_eq_some_iff] at hd
      obtain ⟨d', hd', rfl⟩ := hd
      by_cases heq : handle = other
      · exact Or.inl (by simp [heq])
      · rw [if_neg heq]
        refine (hcover other d' hd').imp_right fun hmem => ?_
        exact (List.mem_cons.mp hmem).resolve_left (Ne.symm heq)

theorem advances_exec {s : SharedPool} {t : ℕ} {i : PoolSection} {rest : List PoolSection}
    {o : PoolOutcome} (hholder : s.holder = some t) (hinside : s.Inside (i :: rest))
    (hexec : exec t s i = some o) : Advances t s rest o := by
  generalize htodo : i :: rest = todo at hinside
  cases hinside with
  | @checkStop urls h =>
    cases htodo
    simp only [exec] at hexec
    split at hexec
    · cases hexec
      refine ⟨Or.inl ⟨hholder, .leave h⟩, later_of_eq rfl rfl, fun a ha => ?_⟩
      cases ha
      exact s.good_home urls
    · rename_i hrunning
      cases hexec
      exact ⟨Or.inl ⟨hholder, .find h (Bool.not_eq_true _ ▸ hrunning)⟩, later_of_eq rfl rfl,
        by rintro a ⟨⟩⟩
  | find h hrunning =>
    cases htodo
    cases hexec
    exact advances_find hholder h hrunning
  | @number urls h hwanted =>
    cases htodo
    cases hexec
    refine ⟨Or.inl ⟨hholder, ?_⟩, later_of_eq rfl rfl, by rintro a ⟨⟩⟩
    rw [h.next]
    exact .spawnDriver (h.shape.keep rfl rfl rfl) rfl ⟨hwanted.running, hwanted.new, hwanted.room⟩
  | @spawnDriver urls h hnext hwanted =>
    cases htodo
    cases hexec
    have hwanted' : Wanted _ urls :=
      ⟨(s.stopped_append h.home ⟨s.created.length, urls, false⟩).trans hwanted.running, hwanted.new,
        hwanted.room⟩
    refine ⟨Or.inl ⟨hholder, .insertExtra (h.spawnDriver urls) (by simp) hnext hwanted'
      ⟨⟨s.created.length, urls, false⟩, by simp, rfl⟩⟩,
      ⟨fun _ _ h => h, fun hstop => ?_⟩, by rintro a ⟨⟩⟩
    -- The lock was taken from a pool that was not stopped.
    exact absurd (stopped_zero h hstop) (by simp [hwanted.running])
  | @insertExtra urls n h hlength hnext hwanted hlast =>
    cases htodo
    cases hexec
    exact ⟨Or.inl ⟨hholder, .insertById (h.insertExtra hlast hwanted) hlength hnext hwanted.running
      (AList.lookup_insert _)⟩, later_insertExtra hwanted.new n, by rintro a ⟨⟩⟩
  | @insertById urls n h hlength hnext hrunning hfound =>
    cases htodo
    cases hexec
    have hshape := h.insertById
    rw [← hlength] at hshape
    have hstops : s.stopped 0 = true → s.AllStopped :=
      fun hstop => absurd hstop (by simp [hrunning])
    refine ⟨Or.inl ⟨hholder, .leave ⟨hshape, hnext.trans hlength.symm, hstops⟩⟩,
      later_of_eq rfl rfl, fun a ha => ?_⟩
    cases ha
    exact fun _ => hfound
  | leave h =>
    cases htodo
    cases hexec
    exact ⟨Or.inr ⟨rfl, h.held none, .idle⟩, later_of_eq rfl rfl, by rintro a ⟨⟩⟩
  | @walk order h =>
    cases htodo
    cases hexec
    exact ⟨Or.inl ⟨hholder, .stopping h.shape h.next fun _ _ hd => Or.inr (h.walk_covers order hd)⟩,
      later_of_eq rfl rfl, by rintro a ⟨⟩⟩
  | stopping h hnext hcover => exact advances_stopping _ h hnext hcover hholder htodo hexec

theorem enters_exec {s : SharedPool} {t : ℕ} {i : PoolSection} {rest : List PoolSection}
    {o : PoolOutcome} (houtside : Outside (i :: rest)) (hexec : exec t s i = some o) :
    ((o.shared = s ∧ Outside (o.more ++ rest)) ∨
      (s.holder = none ∧ o.shared = { s with holder := some t } ∧
        (s.Settled → o.shared.Inside (o.more ++ rest)))) ∧
      ∀ a, o.answer = some a → o.shared.Good a := by
  cases houtside with
  | compare urls =>
    simp only [exec] at hexec
    split at hexec
    · cases hexec
      refine ⟨Or.inl ⟨rfl, .idle⟩, fun a ha => ?_⟩
      cases ha
      exact s.good_home urls
    · cases hexec
      exact ⟨Or.inl ⟨rfl, .enter urls⟩, by rintro a ⟨⟩⟩
  | enter urls =>
    simp only [exec, Option.ite_none_right_eq_some] at hexec
    obtain ⟨hfree, heq⟩ := hexec
    cases heq
    exact ⟨Or.inr ⟨hfree, rfl, fun h => .checkStop (h.held _)⟩, by rintro a ⟨⟩⟩
  | enterClose order =>
    simp only [exec, Option.ite_none_right_eq_some] at hexec
    obtain ⟨hfree, heq⟩ := hexec
    cases heq
    exact ⟨Or.inr ⟨hfree, rfl, fun h => .walk (h.held _)⟩, by rintro a ⟨⟩⟩

theorem lock_respected : lock.Respected PoolCall.body exec where
  calls c := by
    cases c with
    | driverFor urls => exact .compare urls
    | close order => exact .enterClose order
  idle s h := by
    generalize htodo : ([] : List PoolSection) = todo at h
    cases h with
    | @stopping left h hnext hcover => cases left <;> cases htodo
    | _ => cases htodo
  enters t s i rest o _ houtside hexec :=
    (enters_exec houtside hexec).1.imp_right fun ⟨hfree, hshared, hin⟩ =>
      ⟨hfree, by rw [hshared]; rfl, hin⟩
  holds t s i rest o hholder hinside hexec := (advances_exec hholder hinside hexec).next

/-! ### Runs -/

structure Sound (pool : Pool SharedPool PoolSection PoolAnswer) : Prop where
  guards : lock.Guards pool
  answers : ∀ t a, (pool.threads t).answer = some a → pool.shared.Good a

theorem Sound.later_good {pool : Pool SharedPool PoolSection PoolAnswer} (h : Sound pool) {t : ℕ}
    {i : PoolSection} {rest : List PoolSection} {o : PoolOutcome}
    (htodo : (pool.threads t).todo = i :: rest) (hexec : exec t pool.shared i = some o) :
    Later pool.shared o.shared ∧ ∀ a, o.answer = some a → o.shared.Good a := by
  by_cases hholds : pool.shared.holder = some t
  · have hadvances := advances_exec hholds (htodo ▸ h.guards.inside t hholds) hexec
    exact ⟨hadvances.later, hadvances.good⟩
  · obtain ⟨hdoes, hgood⟩ := enters_exec (htodo ▸ h.guards.outside t hholds) hexec
    rcases hdoes with ⟨hsame, _⟩ | ⟨_, htakes, _⟩
    · exact ⟨later_of_eq (by rw [hsame]) (by rw [hsame]), hgood⟩
    · exact ⟨later_of_eq (by rw [htakes]) (by rw [htakes]), hgood⟩

theorem sound_step {pool : Pool SharedPool PoolSection PoolAnswer} (h : Sound pool)
    (m : Move PoolCall) :
    Sound (step PoolCall.body exec pool m) ∧
      Later pool.shared (step PoolCall.body exec pool m).shared := by
  refine ⟨⟨h.guards.step lock_respected m, ?_⟩, ?_⟩
  · refine answers_step PoolCall.body exec h.answers ?_ m
    intro t i rest o htodo hexec
    obtain ⟨hlater, hgood⟩ := h.later_good htodo hexec
    exact ⟨fun a => hlater.good, hgood⟩
  · generalize hnext : step PoolCall.body exec pool m = next
    have hdid : Did PoolCall.body exec pool m next := hnext ▸ did_step PoolCall.body exec pool m
    cases hdid with
    | stays => exact later_of_eq rfl rfl
    | takes htodo => exact later_of_eq rfl rfl
    | runs htodo hexec => exact (h.later_good htodo hexec).1

theorem sound_moves {pool : Pool SharedPool PoolSection PoolAnswer} (h : Sound pool)
    (ms : List (Move PoolCall)) :
    Sound (moves pool ms) ∧ Later pool.shared (moves pool ms).shared := by
  induction ms generalizing pool with
  | nil => exact ⟨h, later_of_eq rfl rfl⟩
  | cons m ms ih =>
    obtain ⟨hnext, hlater⟩ := sound_step h m
    obtain ⟨hend, hrest⟩ := ih hnext
    exact ⟨hend, hlater.trans hrest⟩

theorem sound_idle (urls : List String) : Sound (idlePool (spawn urls)) where
  guards := ⟨fun _ => settled_spawn urls, by rintro t ⟨⟩, fun _ _ => .idle⟩
  answers := by rintro t a ⟨⟩

/-! ### Every interleaving -/

def Registered (s : SharedPool) : Prop := ∀ id handle, s.byId.lookup id = some handle ↔
  (∃ d, s.created[handle]? = some d ∧ d.id = id) ∧
    (handle = 0 ∨ ∃ urls, s.extra.lookup urls = some handle)

theorem Shape.registered {s : SharedPool} {known : ℕ} (h : s.Shape known known) : s.Registered := by
  intro id handle
  rw [h.byId id handle]
  constructor
  · rintro ⟨rfl, hlt⟩
    have hwithin : id < s.created.length := hlt.trans_le h.within
    have hget : s.created[id]? = some s.created[id] := List.getElem?_eq_getElem hwithin
    refine ⟨⟨_, hget, h.numbered id _ hget⟩, ?_⟩
    rcases Nat.eq_zero_or_pos id with hzero | hpos
    · exact Or.inl hzero
    · exact Or.inr ⟨_, (h.extra _ id).mpr ⟨hpos, hlt, _, hget, rfl⟩⟩
  · rintro ⟨⟨d, hd, hid⟩, hmember⟩
    refine ⟨hid.symm.trans (h.numbered handle d hd), ?_⟩
    rcases hmember with rfl | ⟨urls, hurls⟩
    · have := h.size
      omega
    · exact ((h.extra urls handle).mp hurls).2.1

theorem Shape.nodup_ids {s : SharedPool} {known listed : ℕ} (h : s.Shape known listed) :
    (s.created.map PooledDriver.id).Nodup := by
  have hrange : s.created.map PooledDriver.id = List.range s.created.length := by
    apply List.ext_getElem?
    intro handle
    rw [List.getElem?_map]
    cases hget : s.created[handle]? with
    | none => simpa using List.getElem?_eq_none_iff.mp hget
    | some d =>
      have hlt := (List.getElem?_eq_some_iff.mp hget).1
      rw [List.getElem?_range hlt, Option.map_some, h.numbered handle d hget]
  rw [hrange]
  exact List.nodup_range

theorem Inside.shape {s : SharedPool} {todo : List PoolSection} (h : s.Inside todo) :
    ∃ known listed, s.Shape known listed ∧ s.created.length ≤ maxExtraDrivers + 1 ∧
      (listed = known ∨ ∃ id urls handle, todo = [.insertById id urls handle]) := by
  cases h with
  | checkStop h | find h _ | number h _ | leave h | walk h =>
    exact ⟨_, _, h.shape, h.shape.bound, Or.inl rfl⟩
  | spawnDriver h _ _ | stopping h _ _ => exact ⟨_, _, h, h.bound, Or.inl rfl⟩
  | insertExtra h hlength _ hwanted _ =>
    have hsize := h.size
    have hroom := hwanted.room
    exact ⟨_, _, h, by omega, Or.inl rfl⟩
  | @insertById urls n h hlength _ _ _ =>
    have hbound := h.bound
    exact ⟨_, _, h, by omega, Or.inr ⟨n, urls, n, rfl⟩⟩

theorem Sound.shape {pool : Pool SharedPool PoolSection PoolAnswer} (h : Sound pool) :
    ∃ known listed, pool.shared.Shape known listed ∧
      pool.shared.created.length ≤ maxExtraDrivers + 1 ∧
      (listed = known ∨ ∃ t id urls handle, pool.shared.holder = some t ∧
        (pool.threads t).todo = [.insertById id urls handle]) := by
  cases hholder : pool.shared.holder with
  | none =>
    have hsettled : pool.shared.Settled := h.guards.free hholder
    exact ⟨_, _, hsettled.shape, hsettled.shape.bound, Or.inl rfl⟩
  | some t =>
    obtain ⟨known, listed, hshape, hbound, hlisted⟩ := Inside.shape (h.guards.inside t hholder)
    exact ⟨known, listed, hshape, hbound,
      hlisted.imp_right fun ⟨id, urls, handle, htodo⟩ => ⟨t, id, urls, handle, rfl, htodo⟩⟩

/-- After any interleaving of calls: ids are unique; `by_id` is the home driver and the extra
drivers, except between the two inserts of the call that holds the lock; there are at most sixteen
extra drivers. Calls over one list, at whatever points of the run they return, return one driver
unless one of them returns the home driver. From the return of a close on, every driver is stopped
and none is created. -/
theorem driver_pool_bounded_and_stopped (urls : List String) (ms : List (Move PoolCall)) :
    let pool := moves (idlePool (spawn urls)) ms
    (pool.shared.created.map PooledDriver.id).Nodup ∧
      (pool.shared.Registered ∨ ∃ t id list handle, pool.shared.holder = some t ∧
        (pool.threads t).todo = [.insertById id list handle]) ∧
      pool.shared.extra.entries.length ≤ maxExtraDrivers ∧
      pool.shared.created.length ≤ maxExtraDrivers + 1 ∧
      ∀ later, let pool' := moves pool later
        (∀ t t' list handle handle', pool.threads t = ⟨[], some (.driver list handle)⟩ →
          pool'.threads t' = ⟨[], some (.driver list handle')⟩ → handle ≠ 0 → handle' ≠ 0 →
          handle = handle') ∧
        ∀ t, pool.threads t = ⟨[], some .closed⟩ →
          pool'.shared.AllStopped ∧ pool'.shared.created = pool.shared.created := by
  intro pool
  have hsound : Sound pool := (sound_moves (sound_idle urls) ms).1
  obtain ⟨known, listed, hshape, hbound, hlisted⟩ := hsound.shape
  have hextra : pool.shared.extra.entries.length ≤ maxExtraDrivers := by
    have hsize := hshape.size
    have hmost := hshape.bound
    omega
  refine ⟨hshape.nodup_ids, ?_, hextra, hbound, fun later => ?_⟩
  · refine hlisted.imp_left ?_
    rintro rfl
    exact hshape.registered
  · obtain ⟨hsound', hlater⟩ := sound_moves hsound later
    refine ⟨fun t t' list handle handle' ht ht' hne hne' => ?_, fun t ht => ?_⟩
    · have hgood : pool.shared.Good (.driver list handle) := hsound.answers t _ (by rw [ht])
      have hgood' : Good _ (.driver list handle') := hsound'.answers t' _ (by rw [ht'])
      have hfound := hlater.extra list handle (hgood hne)
      exact Option.some_inj.mp (hfound.symm.trans (hgood' hne'))
    · have hstop : pool.shared.AllStopped := hsound.answers t .closed (by rw [ht])
      exact ⟨hlater.allStopped hstop, hlater.created hstop⟩

def entryOrder : WalkOrder := ⟨fun handles => handles, fun _ => .rfl⟩

def threeCalls : List (Move PoolCall) :=
  let calls : List (Move PoolCall) :=
    [.call 0 (.driverFor ["b"]), .call 1 (.driverFor ["b"]), .call 2 (.close entryOrder)]
  calls ++
    ([1, 0, 0, 1, 2] ++ List.replicate 7 0 ++ List.replicate 4 1 ++ List.replicate 5 2).map Move.go

def lateCall : List (Move PoolCall) := .call 0 (.driverFor ["c"]) :: List.replicate 4 (.go 0)

theorem threeCalls_share_driver :
    let pool := moves (idlePool (spawn ["a"])) threeCalls
    pool.threads 0 = ⟨[], some (.driver ["b"] 1)⟩ ∧ pool.threads 1 = ⟨[], some (.driver ["b"] 1)⟩ ∧
      pool.threads 2 = ⟨[], some .closed⟩ ∧ (moves pool lateCall).shared.AllStopped ∧
      (moves pool lateCall).shared.created = pool.shared.created := by
  have hreturned : ∀ t a,
      ((moves (idlePool (spawn ["a"])) threeCalls).threads t).todo.isEmpty = true →
      ((moves (idlePool (spawn ["a"])) threeCalls).threads t).answer = some a →
      (moves (idlePool (spawn ["a"])) threeCalls).threads t = ⟨[], some a⟩ := by
    intro t a htodo hanswer
    rw [← List.isEmpty_iff.mp htodo, ← hanswer]
  have hclosed := hreturned 2 .closed (by decide +kernel) (by decide +kernel)
  obtain ⟨_, _, _, _, hlater⟩ := driver_pool_bounded_and_stopped ["a"] threeCalls
  exact ⟨hreturned 0 _ (by decide +kernel) (by decide +kernel),
    hreturned 1 _ (by decide +kernel) (by decide +kernel), hclosed, (hlater lateCall).2 2 hclosed⟩

/-! ### A call alone -/

/-- The pool and the relay client of the endpoint are one: ids are handles, and the client also
carries what the drivers' tasks do. -/
structure Agrees (s : SharedPool) (c : RelayClient) : Prop where
  drivers : ∀ id, (s.created[id]?).map (fun d => (d.id, d.urls, d.stop)) =
    (c.driver id).map (fun d => (d.id, d.urls, d.stop))
  extra : s.extra = c.extra
  nextId : s.nextId = c.nextId

theorem agrees_spawn (urls : List String) : Agrees (spawn urls) (RelayClient.spawn urls) where
  drivers id := by
    have hdriver : (RelayClient.spawn urls).driver id =
        if id = 0 then some (.spawn 0 urls) else none :=
      Table.lookup_insert_ite ∅ 0 id (RelayDriver.spawn 0 urls)
    rw [hdriver]
    rcases id with _ | id <;> rfl
  extra := rfl
  nextId := rfl

theorem Agrees.home {s : SharedPool} {c : RelayClient} (h : s.Agrees c) :
    s.urlsOf 0 = c.home.urls ∧ s.stopped 0 = c.home.stop := by
  have hhome := h.drivers 0
  rw [c.driver_zero] at hhome
  cases hget : s.created[0]? with
  | none => simp [hget] at hhome
  | some d =>
    simp only [hget, Option.map_some, Option.some.injEq, Prod.mk.injEq] at hhome
    simp [urlsOf, stopped, hget, hhome.2.1, hhome.2.2]

theorem leave_alone (t : ℕ) {s : SharedPool} (hfree : s.holder = none) (a : Option PoolAnswer) :
    Completes exec t { s with holder := some t } [.leave] a s a := by
  have hleave : exec t { s with holder := some t } .leave = some ⟨s, [], none⟩ := by
    rw [exec, ← hfree]
  exact .goes hleave (.done s a)

theorem enter_alone (t : ℕ) {s s' : SharedPool} {urls : List String} {a : Option PoolAnswer}
    (hother : ¬ (urls = [] ∨ urls = s.urlsOf 0)) (hfree : s.holder = none)
    (hrest : Completes exec t { s with holder := some t } [.checkStop urls] none s' a) :
    Completes exec t s (PoolCall.driverFor urls).body none s' a := by
  have hcompare : exec t s (.compare urls) = some ⟨s, [.enter urls], none⟩ := if_neg hother
  have henter : exec t s (.enter urls) =
      some ⟨{ s with holder := some t }, [.checkStop urls], none⟩ :=
    if_pos hfree
  exact .goes hcompare (.goes henter hrest)

def started (s : SharedPool) (urls : List String) : SharedPool :=
  { s with
    created := s.created ++ [⟨s.nextId, urls, false⟩]
    extra := s.extra.insert urls s.nextId
    byId := s.byId.insert s.nextId s.nextId
    nextId := s.nextId + 1 }

theorem spawn_alone (t : ℕ) {s : SharedPool} (urls : List String) (hfree : s.holder = none)
    (hnext : s.nextId = s.created.length) :
    Completes exec t { s with holder := some t } [.number urls] none (s.started urls)
      (some (.driver urls s.nextId)) := by
  refine .goes rfl (.goes rfl (.goes rfl (.goes rfl ?_)))
  simp only [← hnext]
  exact leave_alone (s := s.started urls) t hfree _

theorem Agrees.started {s : SharedPool} {c : RelayClient} (h : s.Agrees c)
    (hnext : s.nextId = s.created.length) (urls : List String) :
    (s.started urls).Agrees
      { c.setDriver c.nextId (.spawn c.nextId urls) with
        extra := c.extra.insert urls c.nextId
        nextId := c.nextId + 1 } where
  drivers id := by
    change ((s.created ++ [⟨s.nextId, urls, false⟩])[id]?).map _ =
      ((c.setDriver c.nextId (.spawn c.nextId urls)).driver id).map _
    rw [RelayClient.driver_setDriver, ← h.nextId]
    by_cases hid : id = s.nextId
    · rw [if_pos hid, hid, hnext]
      simp [RelayDriver.spawn]
    · rw [if_neg hid, ← h.drivers id, List.getElem?_append]
      split
      · rfl
      · rename_i hge
        rw [List.getElem?_eq_none (by simp; omega), List.getElem?_eq_none (by omega)]
  extra := by rw [SharedPool.started, h.extra, h.nextId]
  nextId := by rw [SharedPool.started, h.nextId]

theorem driverFor_alone (t : ℕ) {s : SharedPool} {c : RelayClient} (hsettled : s.Settled)
    (hfree : s.holder = none) (h : s.Agrees c) (urls : List String) :
    ∃ s', s'.Agrees (c.driverFor urls).1 ∧ s'.holder = none ∧
      Completes exec t s (PoolCall.driverFor urls).body none s'
        (some (.driver urls (c.driverFor urls).2)) := by
  obtain ⟨hurls, hstop⟩ := h.home
  unfold RelayClient.driverFor
  rw [← hurls, ← hstop, ← h.extra]
  split
  · rename_i hhome
    have hcompare : exec t s (.compare urls) = some ⟨s, [], some (.driver urls 0)⟩ := if_pos hhome
    exact ⟨s, h, hfree, .goes hcompare (.done _ _)⟩
  · rename_i hother
    split
    · rename_i hstopped
      have hcheck : exec t { s with holder := some t } (.checkStop urls) =
          some ⟨{ s with holder := some t }, [.leave], some (.driver urls 0)⟩ := if_pos hstopped
      exact ⟨s, h, hfree, enter_alone t hother hfree (.goes hcheck (leave_alone t hfree _))⟩
    · rename_i hrunning
      have hcheck : exec t { s with holder := some t } (.checkStop urls) =
          some ⟨{ s with holder := some t }, [.find urls], none⟩ := if_neg hrunning
      have hfind : ∀ {s' : SharedPool} {a : Option PoolAnswer},
          Completes exec t { s with holder := some t } [.find urls] none s' a →
            Completes exec t s (PoolCall.driverFor urls).body none s' a := fun hrest =>
        enter_alone t hother hfree (.goes hcheck hrest)
      split
      · rename_i id hfound
        refine ⟨s, h, hfree, hfind (.goes rfl ?_)⟩
        simp only [find, hfound]
        exact leave_alone t hfree _
      · rename_i hnew
        split
        · rename_i hmany
          refine ⟨s, h, hfree, hfind (.goes rfl ?_)⟩
          simp only [find, hnew, if_pos hmany]
          exact leave_alone t hfree _
        · rename_i hroom
          have hagrees := h.started hsettled.next urls
          rw [← h.extra] at hagrees
          refine ⟨_, hagrees, hfree, hfind (.goes rfl ?_)⟩
          simp only [find, hnew, if_neg hroom, ← h.nextId]
          exact spawn_alone t urls hfree hsettled.next

theorem completes_stops (t : ℕ) (left : List ℕ) {s s' : SharedPool} {rest : List PoolSection}
    {a a' : Option PoolAnswer} (h : Completes exec t (left.foldl stopOne s) rest a s' a') :
    Completes exec t s (left.map .stopOne ++ rest) a s' a' := by
  induction left generalizing s with
  | nil => exact h
  | cons handle left ih => exact .goes rfl (ih h)

theorem getElem?_stops (left : List ℕ) (s : SharedPool) (other : ℕ) :
    (left.foldl stopOne s).created[other]? =
      (s.created[other]?).map fun d => if other ∈ left then { d with stop := true } else d := by
  induction left generalizing s with
  | nil => simp
  | cons handle left ih =>
    rw [List.foldl_cons, ih, getElem?_stopOne, Option.map_map]
    refine congrArg (Option.map · _) (funext fun d => ?_)
    by_cases heq : handle = other
    · simp [heq]
    · simp [heq, Ne.symm heq]

theorem stops_rest (left : List ℕ) (s : SharedPool) :
    (left.foldl stopOne s).extra = s.extra ∧ (left.foldl stopOne s).nextId = s.nextId := by
  induction left generalizing s with
  | nil => exact ⟨rfl, rfl⟩
  | cons handle left ih => exact ih (s.stopOne handle)

theorem close_alone (t : ℕ) {s : SharedPool} {c : RelayClient} (hsettled : s.Settled)
    (hfree : s.holder = none) (h : s.Agrees c) (order : WalkOrder) :
    ∃ s', s'.Agrees c.close ∧ s'.holder = none ∧
      Completes exec t s (PoolCall.close order).body none s' (some .closed) := by
  let held : SharedPool := { s with holder := some t }
  let left := order.order s.handles
  obtain ⟨hextra, hnext⟩ := stops_rest left held
  refine ⟨{ left.foldl stopOne held with holder := none }, ⟨fun id => ?_, hextra.trans h.extra,
    hnext.trans h.nextId⟩, rfl, .goes (by rw [exec, if_pos hfree])
      (.goes rfl (completes_stops t left (.goes rfl (.done _ _))))⟩
  change ((left.foldl stopOne held).created[id]?).map _ = _
  rw [getElem?_stops, RelayClient.driver_close]
  have hdrivers := h.drivers id
  cases hget : s.created[id]? with
  | none =>
    rw [hget] at hdrivers
    cases hdriver : c.driver id with
    | none => rfl
    | some d => simp [hdriver] at hdrivers
  | some d =>
    have hmem : id ∈ left := hsettled.walk_covers order hget
    rw [hget] at hdrivers
    cases hdriver : c.driver id with
    | none => simp [hdriver] at hdrivers
    | some d' =>
      simp only [hdriver, Option.map_some, Option.some.injEq, Prod.mk.injEq] at hdrivers
      simp [hmem, hdrivers.1, hdrivers.2.1]

def clientAfter (c : RelayClient) : PoolCall → RelayClient
  | .driverFor urls => (c.driverFor urls).1
  | .close _ => c.close

theorem call_alone (t : ℕ) {s : SharedPool} {c : RelayClient} (hsettled : s.Settled)
    (hfree : s.holder = none) (h : s.Agrees c) (call : PoolCall) :
    ∃ s' a, s'.Agrees (clientAfter c call) ∧ s'.holder = none ∧
      Completes exec t s call.body none s' a := by
  cases call with
  | driverFor urls =>
    obtain ⟨s', hagrees, hleft, hruns⟩ := driverFor_alone t hsettled hfree h urls
    exact ⟨s', _, hagrees, hleft, hruns⟩
  | close order =>
    obtain ⟨s', hagrees, hleft, hruns⟩ := close_alone t hsettled hfree h order
    exact ⟨s', _, hagrees, hleft, hruns⟩

theorem calls_in_turn (urls : List String) (t : ℕ) (calls : List PoolCall) :
    ∃ ms, (moves (idlePool (spawn urls)) ms).shared.Agrees
        (calls.foldl clientAfter (RelayClient.spawn urls)) ∧
      (moves (idlePool (spawn urls)) ms).shared.holder = none ∧
      ((moves (idlePool (spawn urls)) ms).threads t).todo = [] := by
  induction calls using List.reverseRecOn with
  | nil => exact ⟨[], agrees_spawn urls, rfl, rfl⟩
  | append_singleton calls call ih =>
    obtain ⟨ms, hagrees, hfree, hidle⟩ := ih
    have hsound : Sound (moves (idlePool (spawn urls)) ms) := (sound_moves (sound_idle urls) ms).1
    obtain ⟨s', a, hagrees', hfree', hruns⟩ :=
      call_alone t (hsound.guards.free hfree) hfree hagrees call
    have hcall := step_call PoolCall.body exec hidle call
    have hshared :
        (step PoolCall.body exec (moves (idlePool (spawn urls)) ms) (.call t call)).shared =
        (moves (idlePool (spawn urls)) ms).shared := by rw [hcall, put_shared]
    have hthread :
        (step PoolCall.body exec (moves (idlePool (spawn urls)) ms) (.call t call)).threads t =
        ⟨call.body, none⟩ := by rw [hcall, put_threads_self]
    obtain ⟨n, hn⟩ := completes_run PoolCall.body exec hruns hshared hthread
    refine ⟨ms ++ .call t call :: List.replicate n (.go t), ?_⟩
    rw [List.foldl_append, moves, run_append, run_cons, hn, put_shared, put_threads_self]
    exact ⟨hagrees', hfree', rfl⟩

end SharedPool
end ForgeswornLink
