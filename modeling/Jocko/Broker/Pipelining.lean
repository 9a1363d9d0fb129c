import Jocko.Broker.Broken
import Mathlib.Order.Interval.Finset.Nat

namespace Jocko.Broker.Pipelining

open List

variable {ι : Type}

/-- Where a caller is in `do`. `own` is the id that its request carried; the place of a response is
its place among all the responses. -/
inductive Phase where
  | idle
  | wrote (own : Int32)
  | waiting (own awaited : Int32)
  | done (own : Int32) (place : Nat)
  deriving DecidableEq

/-- The callers of one connection: the requests in the order of their writes, how many of them the
peer has answered, and how many responses were taken off the reader. -/
structure Callers (ι : Type) where
  correlationID : Int32
  phase : ι → Phase
  requests : List (ι × Int32)
  answered : Nat
  taken : Nat

/-- A step of `doRequest`: the increment and the write under the lock, or the read of the id that
comes after the unlock. -/
inductive Act (ι : Type) where
  | write (i : ι)
  | read (i : ι)

/-- A step of a caller in `doRequest`, of the peer, which answers in order, or of a caller in
`waitResponse` that finds its id, skips the head and reads the body. A round that finds another id
changes nothing. -/
inductive Event (ι : Type) where
  | act (a : Act ι)
  | answer
  | take (i : ι)

namespace Callers

variable [DecidableEq ι]

/-- A connection on which nothing was called yet. -/
def start (correlationID : Int32) : Callers ι :=
  { correlationID, phase := fun _ => .idle, requests := [], answered := 0, taken := 0 }

/-- The request of `i` is written. -/
def written (s : Callers ι) (i : ι) : Callers ι :=
  { s with
    correlationID := s.correlationID + 1
    phase := Function.update s.phase i (.wrote (s.correlationID + 1))
    requests := s.requests ++ [(i, s.correlationID + 1)] }

/-- The id that `i` will wait for is read. -/
def noted (s : Callers ι) (i : ι) (own : Int32) : Callers ι :=
  { s with phase := Function.update s.phase i (.waiting own s.correlationID) }

/-- `i` takes the next response. -/
def took (s : Callers ι) (i : ι) (own : Int32) : Callers ι :=
  { s with phase := Function.update s.phase i (.done own s.taken), taken := s.taken + 1 }

/-- A step of `doRequest`. -/
def act (s : Callers ι) : Act ι → Option (Callers ι)
  | .write i =>
    match s.phase i with
    | .idle => some (s.written i)
    | _ => none
  | .read i =>
    match s.phase i with
    | .wrote own => some (s.noted i own)
    | _ => none

/-- One step, if it is possible. -/
def step (s : Callers ι) : Event ι → Option (Callers ι)
  | .act a => s.act a
  | .answer => if s.answered < s.requests.length then some { s with answered := s.answered + 1 }
      else none
  | .take i =>
    match s.phase i, s.requests[s.taken]? with
    | .waiting own awaited, some (_, id) =>
      if s.taken < s.answered ∧ id = awaited then some (s.took i own) else none
    | _, _ => none

/-- The steps of `doRequest` alone. -/
def acts (s : Callers ι) : List (Act ι) → Option (Callers ι)
  | [] => some s
  | a :: rest => (s.act a).bind fun s' => acts s' rest

/-- Steps one after the other. -/
def run (s : Callers ι) : List (Event ι) → Option (Callers ι)
  | [] => some s
  | e :: rest => (s.step e).bind fun s' => run s' rest

section Updates

variable (s : Callers ι) {i j : ι} (own : Int32)

theorem written_correlationID : (s.written i).correlationID = s.correlationID + 1 := rfl

theorem written_self : (s.written i).phase i = .wrote (s.correlationID + 1) :=
  Function.update_self ..

theorem written_other (other : j ≠ i) : (s.written i).phase j = s.phase j :=
  Function.update_of_ne other ..

theorem noted_self : (s.noted i own).phase i = .waiting own s.correlationID :=
  Function.update_self ..

theorem noted_other (other : j ≠ i) : (s.noted i own).phase j = s.phase j :=
  Function.update_of_ne other ..

theorem took_self : (s.took i own).phase i = .done own s.taken := Function.update_self ..

theorem took_other (other : j ≠ i) : (s.took i own).phase j = s.phase j :=
  Function.update_of_ne other ..

end Updates

theorem take_eq_some {s s' : Callers ι} {i : ι} (ran : s.step (.take i) = some s') :
    ∃ own awaited caller id, s.phase i = .waiting own awaited ∧
      s.requests[s.taken]? = some (caller, id) ∧ id = awaited ∧ s' = s.took i own := by
  simp only [step] at ran
  split at ran
  · rename_i own awaited caller id waits head
    split at ran
    · rename_i found
      exact ⟨own, awaited, caller, id, waits, head, found.2, (Option.some.inj ran).symm⟩
    · cases ran
  · cases ran

/-- No two callers wait for the same id, a caller that is done has decoded the response to its own
request, and no two callers have taken the same response. -/
structure Sound (s : Callers ι) : Prop where
  apart : ∀ i j own own' awaited, s.phase i = .waiting own awaited →
    s.phase j = .waiting own' awaited → i = j
  own : ∀ i own place, s.phase i = .done own place → s.requests[place]? = some (i, own)
  once : ∀ i j own own' place, s.phase i = .done own place → s.phase j = .done own' place → i = j

end Callers

/-- The steps of `doRequest` among all the steps. -/
def actsOf (events : List (Event ι)) : List (Act ι) :=
  events.filterMap fun
    | .act a => some a
    | _ => none

/-- Each of the callers reads its id before the next one writes. -/
def paired (callers : List ι) : List (Act ι) := callers.flatMap fun i => [.write i, .read i]

/-- The callers that read their id, with the number of requests that were written by then. -/
def reads : Nat → List (Act ι) → List (ι × Nat)
  | _, [] => []
  | n, .write _ :: rest => reads (n + 1) rest
  | n, .read i :: rest => (i, n) :: reads n rest

/-- The callers that write, in order. -/
def writers : List (Act ι) → List ι
  | [] => []
  | .write i :: rest => i :: writers rest
  | .read _ :: rest => writers rest

variable {n : Nat}

theorem reads_mem {x : ι × Nat} {as : List (Act ι)} (inside : x ∈ reads n as) :
    n ≤ x.2 ∧ x.2 ≤ n + (writers as).length := by
  induction as generalizing n with
  | nil => cases inside
  | cons a as ih =>
    cases a with
    | write i =>
      have bounds := ih inside
      simp only [writers, length_cons]
      omega
    | read i =>
      rcases mem_cons.mp inside with rfl | later
      · exact ⟨Nat.le_refl _, Nat.le_add_right ..⟩
      · exact ih later

/-- Two writes in a row leave a number that no caller reads. -/
theorem not_nodup_reads {i j : ι} {as : List (Act ι)}
    (all : (reads n (.write i :: .write j :: as)).length =
      (writers (.write i :: .write j :: as)).length) :
    ¬ ((reads n (.write i :: .write j :: as)).map Prod.snd).Nodup := by
  intro nodup
  have within : ((reads n (.write i :: .write j :: as)).map Prod.snd).toFinset ⊆
      Finset.Icc (n + 2) (n + 2 + (writers as).length) := by
    intro m inside
    rw [mem_toFinset] at inside
    obtain ⟨x, read, rfl⟩ := mem_map.mp inside
    have later : x ∈ reads (n + 2) as := read
    exact Finset.mem_Icc.mpr (reads_mem later)
  have few := Finset.card_le_card within
  rw [toFinset_card_of_nodup nodup, length_map, Nat.card_Icc, all] at few
  simp only [writers, length_cons] at few
  omega

/-- The id of the request that is written after `n` others. -/
def idAt (first : Int32) (n : Nat) : Int32 := first + Int32.ofNat n

theorem idAt_zero (first : Int32) : idAt first 0 = first := by
  simp [idAt]

theorem idAt_succ (first : Int32) (n : Nat) : idAt first n + 1 = idAt first (n + 1) := by
  simp [idAt, Int32.ofNat_add, Int32.add_assoc]

variable {first : Int32}

/-- Ids come again after 2^32 requests, and not before. -/
theorem idAt_inj {m : Nat} (same : idAt first n = idAt first m) : n % 2 ^ 32 = m % 2 ^ 32 := by
  have bound := first.toBitVec.isLt
  have bits := congrArg (fun i : Int32 => i.toBitVec.toNat) same
  simp only [idAt, Int32.toBitVec_add, BitVec.toNat_add, Int32.toBitVec_ofNat',
    BitVec.toNat_ofNat] at bits
  omega

open Callers

section Acts

variable [DecidableEq ι] {s s' : Callers ι} {i : ι} {as : List (Act ι)}

theorem Callers.act_eq_some {a : Act ι} (ran : s.act a = some s') :
    (∃ i, a = .write i ∧ s.phase i = .idle ∧ s' = s.written i) ∨
      ∃ i own, a = .read i ∧ s.phase i = .wrote own ∧ s' = s.noted i own := by
  cases a with
  | write i =>
    simp only [act] at ran
    split at ran
    · exact .inl ⟨i, rfl, ‹_›, (Option.some.inj ran).symm⟩
    · cases ran
  | read i =>
    simp only [act] at ran
    split at ran
    · exact .inr ⟨i, _, rfl, ‹_›, (Option.some.inj ran).symm⟩
    · cases ran

theorem Callers.acts_cons {a : Act ι} (ran : s.acts (a :: as) = some s') :
    ∃ between, s.act a = some between ∧ between.acts as = some s' :=
  Option.bind_eq_some_iff.mp ran

omit [DecidableEq ι] in
theorem Callers.ne_of_phase {j : ι} {p q : Phase} (here : s.phase i = p) (there : s.phase j = q)
    (differ : p ≠ q) : i ≠ j := by
  rintro rfl
  exact differ (here.symm.trans there)

theorem Callers.acts_waiting {own awaited : Int32} (ran : s.acts as = some s')
    (waits : s.phase i = .waiting own awaited) :
    s'.phase i = .waiting own awaited ∧ i ∉ writers as ∧ ∀ n m, (i, m) ∉ reads n as := by
  induction as generalizing s with
  | nil =>
    cases ran
    exact ⟨waits, not_mem_nil, fun _ _ => not_mem_nil⟩
  | cons a as ih =>
    obtain ⟨between, first, rest⟩ := acts_cons ran
    obtain ⟨j, rfl, idle, rfl⟩ | ⟨j, own', rfl, wrote, rfl⟩ := act_eq_some first
    · have other := ne_of_phase waits idle nofun
      obtain ⟨stays, silent, unread⟩ := ih rest (by rwa [written_other _ other])
      refine ⟨stays, ?_, fun n m => unread (n + 1) m⟩
      rw [writers, mem_cons, not_or]
      exact ⟨other, silent⟩
    · have other := ne_of_phase waits wrote nofun
      obtain ⟨stays, silent, unread⟩ := ih rest (by rwa [noted_other _ _ other])
      refine ⟨stays, silent, fun n m => ?_⟩
      rw [reads, mem_cons, not_or]
      exact ⟨fun same => other (Prod.mk.inj same).1, unread n m⟩

/-- A caller that has written reads its id, or is still to read it at the end. -/
theorem Callers.acts_wrote {own : Int32} (ran : s.acts as = some s')
    (wrote : s.phase i = .wrote own) (n : Nat) :
    i ∉ writers as ∧ (i ∈ (reads n as).map Prod.fst ∨ s'.phase i = .wrote own) := by
  induction as generalizing s n with
  | nil =>
    cases ran
    exact ⟨not_mem_nil, .inr wrote⟩
  | cons a as ih =>
    obtain ⟨between, first, rest⟩ := acts_cons ran
    obtain ⟨j, rfl, idle, rfl⟩ | ⟨j, own', rfl, wrote', rfl⟩ := act_eq_some first
    · have other := ne_of_phase wrote idle nofun
      obtain ⟨silent, ends⟩ := ih rest (by rwa [written_other _ other]) (n + 1)
      refine ⟨?_, ends⟩
      rw [writers, mem_cons, not_or]
      exact ⟨other, silent⟩
    · by_cases same : i = j
      · subst same
        obtain ⟨-, silent, -⟩ := acts_waiting rest (noted_self _ _)
        exact ⟨silent, .inl (mem_cons_self ..)⟩
      · obtain ⟨silent, ends⟩ := ih rest (by rwa [noted_other _ _ same]) n
        refine ⟨silent, ends.imp_left fun read => ?_⟩
        exact mem_cons_of_mem _ read

/-- What the ids are that the callers wait for in the end. -/
theorem Callers.acts_reads (ran : s.acts as = some s') (counted : s.correlationID = idAt first n) :
    ((reads n as).map Prod.fst).Nodup ∧
      ∀ x ∈ reads n as, ∃ own, s'.phase x.1 = .waiting own (idAt first x.2) := by
  induction as generalizing s n with
  | nil => exact ⟨nodup_nil, fun x inside => (not_mem_nil inside).elim⟩
  | cons a as ih =>
    obtain ⟨between, act, rest⟩ := acts_cons ran
    obtain ⟨j, rfl, idle, rfl⟩ | ⟨j, own, rfl, wrote, rfl⟩ := act_eq_some act
    · exact ih rest (by rw [written_correlationID, counted, idAt_succ])
    · obtain ⟨nodup, waits⟩ := ih rest counted
      obtain ⟨stays, -, unread⟩ := acts_waiting rest (noted_self _ _)
      refine ⟨nodup_cons.mpr ⟨fun again => ?_, nodup⟩, fun x inside => ?_⟩
      · obtain ⟨⟨i, m⟩, read, same⟩ := mem_map.mp again
        cases same
        exact unread n m read
      · rcases mem_cons.mp inside with rfl | later
        · exact ⟨own, counted ▸ stays⟩
        · exact waits x later

/-- Callers that write are at the beginning of `do`, and each writes once. -/
theorem Callers.acts_writers (ran : s.acts as = some s') :
    (writers as).Nodup ∧ ∀ i ∈ writers as, s.phase i = .idle := by
  induction as generalizing s with
  | nil => exact ⟨nodup_nil, fun x inside => (not_mem_nil inside).elim⟩
  | cons a as ih =>
    obtain ⟨between, act, rest⟩ := acts_cons ran
    obtain ⟨nodup, before⟩ := ih rest
    obtain ⟨j, rfl, idle, rfl⟩ | ⟨j, own, rfl, wrote, rfl⟩ := act_eq_some act
    · obtain ⟨silent, -⟩ := acts_wrote rest (written_self _) 0
      refine ⟨nodup_cons.mpr ⟨silent, nodup⟩, fun i inside => ?_⟩
      rcases mem_cons.mp inside with rfl | later
      · exact idle
      · have other : i ≠ j := fun same => silent (same ▸ later)
        have kept := before i later
        rwa [written_other _ other] at kept
    · refine ⟨nodup, fun i inside => ?_⟩
      have kept := before i inside
      have other := ne_of_phase kept (noted_self s own) nofun
      rwa [noted_other _ _ other] at kept

/-- Nobody is between the write and the read of the id. -/
def Callers.Settled (s : Callers ι) : Prop := ∀ i own, s.phase i ≠ .wrote own

/-- Between two moments at which nobody is, those who write are those who read. -/
theorem Callers.acts_perm (ran : s.acts as = some s') (before : s.Settled)
    (after : s'.Settled) (nodup : ((reads n as).map Prod.fst).Nodup) :
    (reads n as).length = (writers as).length := by
  have read_of_write (i : ι) (inside : i ∈ writers as) : i ∈ (reads n as).map Prod.fst := by
    clear before nodup
    induction as generalizing s n with
    | nil => cases inside
    | cons a as ih =>
      obtain ⟨between, act, rest⟩ := acts_cons ran
      obtain ⟨j, rfl, idle, rfl⟩ | ⟨j, own, rfl, wrote, rfl⟩ := act_eq_some act
      · rcases mem_cons.mp inside with rfl | later
        · obtain ⟨-, read | left⟩ := acts_wrote rest (written_self _) (n + 1)
          · exact read
          · exact (after _ _ left).elim
        · exact ih rest later
      · exact mem_cons_of_mem _ (ih rest inside)
  have write_of_read (i : ι) (inside : i ∈ (reads n as).map Prod.fst) :
      i ∈ writers as ∨ ∃ own, s.phase i = .wrote own := by
    clear before after nodup read_of_write
    induction as generalizing s n with
    | nil => cases inside
    | cons a as ih =>
      obtain ⟨between, act, rest⟩ := acts_cons ran
      obtain ⟨j, rfl, idle, rfl⟩ | ⟨j, own, rfl, wrote, rfl⟩ := act_eq_some act
      · by_cases same : i = j
        · subst same
          exact .inl (mem_cons_self ..)
        · refine (ih rest inside).imp (mem_cons_of_mem _) ?_
          rw [written_other _ same]
          exact id
      · by_cases same : i = j
        · subst same
          exact .inr ⟨own, wrote⟩
        · have later : i ∈ (reads n as).map Prod.fst := by
            rcases mem_cons.mp inside with here | later
            · exact (same here).elim
            · exact later
          refine (ih rest later).imp_right ?_
          rw [noted_other _ _ same]
          exact id
  have perm : ((reads n as).map Prod.fst).Perm (writers as) := by
    refine (perm_ext_iff_of_nodup nodup (acts_writers ran).1).mpr fun i => ?_
    refine ⟨fun read => ?_, read_of_write i⟩
    rcases write_of_read i read with wrote | ⟨own, wrote⟩
    · exact wrote
    · exact (before i own wrote).elim
  have length := perm.length_eq
  rwa [length_map] at length

/-- Those who wait in the end wait for different ids only if each of them reads its id before the
next one writes. -/
theorem Callers.paired_of_apart (ran : s.acts as = some s')
    (counted : s.correlationID = idAt first n) (before : s.Settled) (after : s'.Settled)
    (apart : ∀ i j own own' awaited, s'.phase i = .waiting own awaited →
      s'.phase j = .waiting own' awaited → i = j) : as = paired (writers as) := by
  induction length : as.length using Nat.strong_induction_on generalizing s n as with
  | _ k ih =>
    match as, ran, length with
    | [], _, _ => rfl
    | .read i :: as, ran, _ =>
      obtain ⟨between, act, -⟩ := acts_cons ran
      obtain ⟨j, same, -⟩ | ⟨j, own, -, wrote, -⟩ := act_eq_some act
      · cases same
      · exact (before j own wrote).elim
    | [.write i], ran, _ =>
      obtain ⟨between, act, rest⟩ := acts_cons ran
      obtain ⟨j, same, -, rfl⟩ | ⟨j, own, same, -⟩ := act_eq_some act
      · cases same
        cases rest
        exact (after i _ (written_self s)).elim
      · cases same
    | .write i :: .write j :: as, ran, _ =>
      -- as many read as write, but one number is never read
      obtain ⟨nodup, waits⟩ := acts_reads ran counted
      refine (not_nodup_reads (acts_perm ran before after nodup) ?_).elim
      refine nodup.of_map.map_on fun x inside y inside' same => Prod.ext ?_ same
      obtain ⟨own, here⟩ := waits x inside
      obtain ⟨own', there⟩ := waits y inside'
      exact apart _ _ _ _ _ here (same ▸ there)
    | .write i :: .read j :: as, ran, length =>
      obtain ⟨between, act, rest⟩ := acts_cons ran
      obtain ⟨i', same, -, rfl⟩ | ⟨i', own, same, -⟩ := act_eq_some act
      · cases same
        obtain ⟨between', act', rest'⟩ := acts_cons rest
        obtain ⟨j', same', -⟩ | ⟨j', own', same', wrote, rfl⟩ := act_eq_some act'
        · cases same'
        · cases same'
          -- nobody but the one that has just written can read
          have alone : j = i := by
            by_contra other
            rw [written_other s other] at wrote
            exact before j own' wrote
          subst alone
          have settled : ((s.written j).noted j own').Settled := by
            intro l own'' again
            by_cases same : l = j
            · subst same
              rw [noted_self] at again
              cases again
            · rw [noted_other _ _ same, written_other s same] at again
              exact before l own'' again
          have later := ih as.length (by simp only [length_cons] at length; omega) rest'
            (show (s.written j).correlationID = idAt first (n + 1) by
              rw [written_correlationID, counted, idAt_succ]) settled rfl
          rw [writers, writers, paired, flatMap_cons]
          exact congrArg (fun rest => Act.write j :: Act.read j :: rest) later
      · cases same

/-- There are 2^32 ids. -/
theorem length_le_of_nodup {ids : List Int32} (nodup : ids.Nodup) : ids.length ≤ 2 ^ 32 := by
  have injective : Function.Injective fun i : Int32 => i.toBitVec.toNat := by
    intro i j same
    exact Int32.toBitVec_inj.mp (BitVec.eq_of_toNat_eq same)
  have distinct := nodup.map injective
  have within : (ids.map fun i : Int32 => i.toBitVec.toNat).toFinset ⊆ Finset.range (2 ^ 32) := by
    intro m inside
    obtain ⟨i, -, rfl⟩ := mem_map.mp (mem_toFinset.mp inside)
    exact Finset.mem_range.mpr i.toBitVec.isLt
  have few := Finset.card_le_card within
  rwa [toFinset_card_of_nodup distinct, length_map, Finset.card_range] at few

theorem Callers.writers_le_of_apart (ran : s.acts as = some s')
    (counted : s.correlationID = first) (before : s.Settled) (after : s'.Settled)
    (apart : ∀ i j own own' awaited, s'.phase i = .waiting own awaited →
      s'.phase j = .waiting own' awaited → i = j) : (writers as).length ≤ 2 ^ 32 := by
  obtain ⟨nodup, waits⟩ := acts_reads ran (counted.trans (idAt_zero first).symm)
  have ids : ((reads 0 as).map fun x => idAt first x.2).Nodup := by
    refine nodup.of_map.map_on fun x inside y inside' same => ?_
    obtain ⟨own, here⟩ := waits x inside
    obtain ⟨own', there⟩ := waits y inside'
    have caller : x.1 = y.1 := apart _ _ _ _ _ here (same ▸ there)
    exact inj_on_of_nodup_map nodup inside inside' caller
  have few := length_le_of_nodup ids
  rwa [length_map, acts_perm ran before after nodup] at few

end Acts

/-- The requests of these callers, with consecutive ids. -/
def numbered (first : Int32) (callers : List ι) : List (ι × Int32) :=
  callers.zipIdx.map fun x => (x.1, idAt first (x.2 + 1))

theorem numbered_concat (first : Int32) (callers : List ι) (i : ι) :
    numbered first (callers ++ [i]) =
      numbered first callers ++ [(i, idAt first (callers.length + 1))] := by
  simp [numbered, zipIdx_append]

theorem numbered_getElem? (first : Int32) (callers : List ι) (k : Nat) :
    (numbered first callers)[k]? = callers[k]?.map fun i => (i, idAt first (k + 1)) := by
  rw [numbered, getElem?_map, getElem?_zipIdx, Option.map_map]
  simp [Function.comp_def]

/-- The callers `ds` have read their own ids, in the order of their writes; those whose response
was taken are done. `pending` has written and not read its id yet. -/
structure Orderly [DecidableEq ι] (first : Int32) (s : Callers ι) (ds : List ι)
    (pending : Option ι) : Prop where
  counted : s.correlationID = idAt first (ds ++ pending.toList).length
  requests : s.requests = numbered first (ds ++ pending.toList)
  nodup : (ds ++ pending.toList).Nodup
  few : (ds ++ pending.toList).length ≤ 2 ^ 32
  taken : s.taken ≤ ds.length
  done : ∀ k i, ds[k]? = some i → k < s.taken → s.phase i = .done (idAt first (k + 1)) k
  waiting : ∀ k i, ds[k]? = some i → s.taken ≤ k →
    s.phase i = .waiting (idAt first (k + 1)) (idAt first (k + 1))
  wrote : ∀ i, pending = some i → s.phase i = .wrote (idAt first (ds.length + 1))
  idle : ∀ i, i ∉ ds ++ pending.toList → s.phase i = .idle

namespace Orderly

variable [DecidableEq ι] {first : Int32} {s s' : Callers ι} {ds : List ι} {pending : Option ι}
  {i : ι}

theorem start (first : Int32) : Orderly first (.start first : Callers ι) [] none where
  counted := (idAt_zero first).symm
  requests := rfl
  nodup := nodup_nil
  few := Nat.zero_le _
  taken := Nat.le_refl _
  done _ _ none := by cases none
  waiting _ _ none := by cases none
  wrote _ none := by cases none
  idle _ _ := rfl

theorem cases (orderly : Orderly first s ds pending) (i : ι) :
    (∃ k, ds[k]? = some i ∧ k < s.taken ∧ s.phase i = .done (idAt first (k + 1)) k) ∨
    (∃ k, ds[k]? = some i ∧ s.taken ≤ k ∧
      s.phase i = .waiting (idAt first (k + 1)) (idAt first (k + 1))) ∨
    (pending = some i ∧ s.phase i = .wrote (idAt first (ds.length + 1))) ∨
    (i ∉ ds ++ pending.toList ∧ s.phase i = .idle) := by
  by_cases member : i ∈ ds ++ pending.toList
  · rcases mem_append.mp member with inside | last
    · obtain ⟨k, place⟩ := mem_iff_getElem?.mp inside
      by_cases before : k < s.taken
      · exact .inl ⟨k, place, before, orderly.done k i place before⟩
      · exact .inr (.inl ⟨k, place, not_lt.mp before,
          orderly.waiting k i place (not_lt.mp before)⟩)
    · have here : pending = some i := Option.mem_toList.mp last
      exact .inr (.inr (.inl ⟨here, orderly.wrote i here⟩))
  · exact .inr (.inr (.inr ⟨member, orderly.idle i member⟩))

theorem place_of_waiting (orderly : Orderly first s ds pending) {own awaited : Int32}
    (waits : s.phase i = .waiting own awaited) : ∃ k, ds[k]? = some i ∧ s.taken ≤ k ∧
      own = idAt first (k + 1) ∧ awaited = idAt first (k + 1) := by
  rcases orderly.cases i with ⟨k, -, -, phase⟩ | ⟨k, place, after, phase⟩ | ⟨-, phase⟩ | ⟨-, phase⟩
  all_goals
    rw [waits] at phase
    cases phase
  exact ⟨k, place, after, rfl, rfl⟩

theorem ne_of_place (orderly : Orderly first s ds none) {k : Nat} {j : ι} (place : ds[k]? = some j)
    (idle : s.phase i = .idle) : j ≠ i := by
  rintro rfl
  by_cases before : k < s.taken
  · rw [orderly.done k j place before] at idle
    cases idle
  · rw [orderly.waiting k j place (not_lt.mp before)] at idle
    cases idle

/-- A caller writes while nobody else is between its write and its read. -/
theorem written (orderly : Orderly first s ds none) (idle : s.phase i = .idle)
    (room : ds.length + 1 ≤ 2 ^ 32) : Orderly first (s.written i) ds (some i) := by
  have members : ds ++ (none : Option ι).toList = ds := append_nil ds
  have counted := orderly.counted
  have requests := orderly.requests
  have nodup := orderly.nodup
  rw [members] at counted requests nodup
  have length : (ds ++ (some i).toList).length = ds.length + 1 := by simp
  have fresh : i ∉ ds := by
    intro inside
    obtain ⟨k, place⟩ := mem_iff_getElem?.mp inside
    exact orderly.ne_of_place place idle rfl
  refine ⟨?_, ?_, ?_, length ▸ room, orderly.taken, ?_, ?_, ?_, ?_⟩
  · rw [written_correlationID, counted, idAt_succ, length]
  · change s.requests ++ [(i, s.correlationID + 1)] = numbered first (ds ++ [i])
    rw [numbered_concat, requests, counted, idAt_succ]
  · exact nodup_append.mpr ⟨nodup, nodup_singleton i, fun j inside l last => by
      rw [mem_singleton.mp last]
      rintro rfl
      exact fresh inside⟩
  · intro k j place before
    rw [written_other s (orderly.ne_of_place place idle)]
    exact orderly.done k j place before
  · intro k j place after
    rw [written_other s (orderly.ne_of_place place idle)]
    exact orderly.waiting k j place after
  · rintro j ⟨⟩
    rw [written_self, counted, idAt_succ]
  · intro j outside
    have other : j ≠ i := by
      rintro rfl
      exact outside (mem_append_right _ (mem_singleton_self j))
    rw [written_other s other]
    refine orderly.idle j fun inside => ?_
    rw [members] at inside
    exact outside (mem_append_left _ inside)

theorem noted (orderly : Orderly first s ds (some i)) :
    Orderly first (s.noted i (idAt first (ds.length + 1))) (ds ++ [i]) none := by
  have members : ds ++ [i] ++ (none : Option ι).toList = ds ++ (some i).toList :=
    append_nil _
  have length : (ds ++ [i]).length = ds.length + 1 := by simp
  have nodup := orderly.nodup
  have other {k : Nat} {j : ι} (place : ds[k]? = some j) : j ≠ i := by
    rintro rfl
    have inside := mem_of_getElem? place
    exact (nodup_append.mp nodup).2.2 j inside j (mem_singleton_self j) rfl
  have place_cases {k : Nat} {j : ι} (place : (ds ++ [i])[k]? = some j) :
      ds[k]? = some j ∨ k = ds.length ∧ j = i := by
    rcases Nat.lt_or_ge k ds.length with inside | outside
    · exact .inl (by rwa [getElem?_append_left inside] at place)
    · rw [List.getElem?_append_right outside] at place
      obtain ⟨last, same⟩ := List.getElem?_eq_some_iff.mp place
      simp only [List.length_singleton] at last
      have here : k = ds.length := by omega
      subst here
      simp only [Nat.sub_self, getElem_cons_zero] at same
      exact .inr ⟨rfl, same.symm⟩
  have counted := orderly.counted
  refine ⟨?_, ?_, ?_, ?_, ?_, ?_, ?_, ?_, ?_⟩
  · rw [members]
    exact counted
  · rw [members]
    exact orderly.requests
  · rw [members]
    exact nodup
  · rw [members]
    exact orderly.few
  · have taken := orderly.taken
    change s.taken ≤ (ds ++ [i]).length
    omega
  · intro k j place before
    rcases place_cases place with inside | ⟨rfl, -⟩
    · rw [noted_other _ _ (other inside)]
      exact orderly.done k j inside before
    · have taken := orderly.taken
      change ds.length < s.taken at before
      omega
  · intro k j place after
    rcases place_cases place with inside | ⟨rfl, rfl⟩
    · rw [noted_other _ _ (other inside)]
      exact orderly.waiting k j inside after
    · rw [noted_self, counted]
      simp
  · rintro j ⟨⟩
  · intro j outside
    rw [members] at outside
    have different : j ≠ i := by
      rintro rfl
      exact outside (mem_append_right _ (mem_singleton_self j))
    rw [noted_other _ _ different]
    exact orderly.idle j outside

/-- A caller that finds its id takes the response to its own request. -/
theorem took (orderly : Orderly first s ds pending) {own awaited id : Int32} {caller : ι}
    (waits : s.phase i = .waiting own awaited) (head : s.requests[s.taken]? = some (caller, id))
    (found : id = awaited) : Orderly first (s.took i own) ds pending := by
  have few := orderly.few
  rw [length_append] at few
  obtain ⟨k, place, after, rfl, rfl⟩ := orderly.place_of_waiting waits
  obtain ⟨inside, -⟩ := List.getElem?_eq_some_iff.mp place
  -- ids do not come again among so few requests
  have here : s.taken = k := by
    rw [orderly.requests, numbered_getElem?] at head
    obtain ⟨caller', -, same⟩ := Option.map_eq_some_iff.mp head
    cases same
    have ids := idAt_inj found
    omega
  have unique {l : Nat} {j : ι} (place' : ds[l]? = some j) (other : l ≠ k) : j ≠ i := by
    rintro rfl
    have distinct := (List.nodup_append.mp orderly.nodup).1
    exact other ((List.getElem?_inj (List.getElem?_eq_some_iff.mp place').1 distinct).mp
      (place'.trans place.symm))
  refine ⟨orderly.counted, orderly.requests, orderly.nodup, orderly.few, ?_, ?_, ?_, ?_, ?_⟩
  · change s.taken + 1 ≤ ds.length
    omega
  · intro l j place' before
    change l < s.taken + 1 at before
    by_cases same : l = k
    · subst same
      obtain rfl : j = i := Option.some.inj (place'.symm.trans place)
      rw [took_self, here]
    · rw [took_other _ _ (unique place' same)]
      exact orderly.done l j place' (by omega)
  · intro l j place' later
    change s.taken + 1 ≤ l at later
    rw [took_other _ _ (unique place' (by omega))]
    exact orderly.waiting l j place' (by omega)
  · intro j last
    have other := ne_of_phase (orderly.wrote j last) waits nofun
    rw [took_other _ _ other]
    exact orderly.wrote j last
  · intro j outside
    have other : j ≠ i := by
      rintro rfl
      exact outside (mem_append_left _ (mem_of_getElem? place))
    rw [took_other _ _ other]
    exact orderly.idle j outside

theorem sound (orderly : Orderly first s ds pending) : s.Sound := by
  have few := orderly.few
  rw [length_append] at few
  have at_done {i : ι} {own : Int32} {place : Nat} (done : s.phase i = .done own place) :
      ds[place]? = some i ∧ own = idAt first (place + 1) := by
    rcases orderly.cases i with ⟨k, here, -, phase⟩ | ⟨k, -, -, phase⟩ | ⟨-, phase⟩ | ⟨-, phase⟩
    all_goals
      rw [done] at phase
      cases phase
    exact ⟨here, rfl⟩
  refine ⟨?_, ?_, ?_⟩
  · intro i j own own' awaited waits waits'
    obtain ⟨k, place, -, -, rfl⟩ := orderly.place_of_waiting waits
    obtain ⟨l, place', -, -, same⟩ := orderly.place_of_waiting waits'
    obtain ⟨inside, -⟩ := List.getElem?_eq_some_iff.mp place
    obtain ⟨inside', -⟩ := List.getElem?_eq_some_iff.mp place'
    have ids := idAt_inj same
    obtain rfl : k = l := by omega
    exact Option.some.inj (place.symm.trans place')
  · intro i own place done
    obtain ⟨here, rfl⟩ := at_done done
    obtain ⟨inside, -⟩ := List.getElem?_eq_some_iff.mp here
    rw [orderly.requests, numbered_getElem?, List.getElem?_append_left inside, here]
    rfl
  · intro i j own own' place done done'
    exact Option.some.inj ((at_done done).1.symm.trans (at_done done').1)

theorem answered (orderly : Orderly first s ds pending) :
    Orderly first { s with answered := s.answered + 1 } ds pending :=
  ⟨orderly.counted, orderly.requests, orderly.nodup, orderly.few, orderly.taken, orderly.done,
    orderly.waiting, orderly.wrote, orderly.idle⟩

/-- What is left to do of `doRequest` for `pending` and then for the callers `cs`. -/
def remaining (pending : Option ι) (cs : List ι) : List (Act ι) :=
  pending.toList.map Act.read ++ paired cs

/-- Every run keeps the callers orderly, if they read their ids one after the other. -/
theorem run {es : List (Event ι)} {cs : List ι} (orderly : Orderly first s ds pending)
    (acts : actsOf es = remaining pending cs)
    (room : (ds ++ pending.toList).length + cs.length ≤ 2 ^ 32)
    (ran : s.run es = some s') : s'.Sound := by
  induction es generalizing s ds pending cs with
  | nil =>
    cases ran
    exact orderly.sound
  | cons e es ih =>
    obtain ⟨between, step, rest⟩ := Option.bind_eq_some_iff.mp ran
    cases e with
    | answer =>
      simp only [Callers.step] at step
      split at step
      · cases step
        exact ih orderly.answered acts room rest
      · cases step
    | take i =>
      obtain ⟨own, awaited, caller, id, waits, head, found, rfl⟩ := take_eq_some step
      exact ih (orderly.took waits head found) acts room rest
    | act a =>
      change a :: actsOf es = _ at acts
      change s.act a = some between at step
      cases pending with
      | none =>
        cases cs with
        | nil => cases acts
        | cons i cs =>
          obtain ⟨rfl, later⟩ := cons.inj acts
          obtain ⟨j, same, idle, rfl⟩ | ⟨j, own, same, -⟩ := act_eq_some step
          · cases same
            simp only [Option.toList_none, append_nil, length_cons] at room
            refine ih (orderly.written idle (by omega)) later ?_ rest
            simp only [Option.toList_some, length_append, length_singleton]
            omega
          · cases same
      | some i =>
        obtain ⟨rfl, later⟩ := cons.inj acts
        obtain ⟨j, same, -⟩ | ⟨j, own, same, wrote, rfl⟩ := act_eq_some step
        · cases same
        · cases same
          rw [orderly.wrote i rfl] at wrote
          cases wrote
          refine ih orderly.noted later ?_ rest
          simpa using room

end Orderly

theorem actsOf_map (as : List (Act ι)) : actsOf (as.map Event.act) = as := by
  induction as with
  | nil => rfl
  | cons a as ih => exact congrArg (a :: ·) ih

theorem settled_start (first : Int32) : (Callers.start first : Callers ι).Settled := by
  intro i own wrote
  cases wrote

section Main

variable [DecidableEq ι]

theorem Callers.run_acts (s : Callers ι) (as : List (Act ι)) :
    s.run (as.map Event.act) = s.acts as := by
  induction as generalizing s with
  | nil => rfl
  | cons a as ih =>
    simp only [map_cons, run, acts, step, ih]

/-- Each call gets its own response in every run with these steps of `doRequest`, whatever the peer
and the callers in `waitResponse` do between them. -/
def OwnResponses (first : Int32) (as : List (Act ι)) : Prop :=
  ∀ events s, actsOf events = as → (Callers.start first).run events = some s → s.Sound

end Main

end Jocko.Broker.Pipelining
