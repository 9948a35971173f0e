import Mathlib
import AegCloudDfir.Lib.Transition

/-!
# Migrating the search index

Everything reads and writes through an alias. `ensureIndex` of `packages/search/src/adapter.ts`
moves the alias to the index of the current mapping version: it looks up where the alias points to,
creates the target, copies the documents, and swaps the alias. `reindexToNewVersion` loads the target from
the database instead. Every worker calls `ensureIndex` when it starts, and others are writing.

Each call of the client is one event, and the cluster applies it at once. An index is known by its
version.

* `call` — what a process does to the cluster.
* `good_iff` — the alias always points to one index, with everything that was acknowledged, exactly
  in the runs in which nobody has gone past a copy: whenever the alias is swapped, it still points
  to what was looked up, and nothing was acknowledged that the target does not have.
-/

namespace AegCloudDfir.Search.Migration

open Transition

variable {I T C : Type}

/-! ## The cluster -/

/-- A document. -/
structure Doc (I T C : Type) where
  evidenceItemId : I
  tenantId : T
  content : C
  deriving DecidableEq

/-- The documents of an index, by their id. -/
abbrev Docs (I T C : Type) : Type := I → Option (Doc I T C)

/-- What was acknowledged last about an id; not part of the cluster. -/
inductive Ack (I T C : Type) : Type where
  | never
  | stored (doc : Doc I T C)
  | deleted
  deriving DecidableEq

/-- A call of `ensureIndex` (up to `adopting`) or of `reindexToNewVersion`, by what it has found out
so far. -/
inductive Process : Type where
  | started
  /-- the alias exists -/
  | found
  /-- it points to other indices than the target -/
  | looked (current : List ℕ)
  /-- there is no target -/
  | creating (current : List ℕ)
  | prepared (current : List ℕ)
  | copied (current : List ℕ)
  /-- there is no alias -/
  | unfound
  /-- nor a target -/
  | bootstrapping
  /-- but a target -/
  | adopting
  | opened
  | planned (current : List ℕ)
  | loading (current : List ℕ) (target : ℕ)
  | done
  | failed
  deriving DecidableEq

/-- The index a process loads. -/
def Process.target? : Process → Option ℕ
  | .loading _ target => some target
  | _ => none

/-- The cluster, and what goes on. -/
structure Cluster (I T C : Type) where
  indices : ℕ → Option (Docs I T C)
  /-- where the alias points to -/
  aliased : List ℕ
  processes : List Process
  acked : I → Ack I T C

/-- `MAPPING_VERSION` -/
def mappingVersion : ℕ := 3

/-- `nextVersion` of `reindexToNewVersion` -/
def nextVersion (current : List ℕ) : ℕ := current.foldl max mappingVersion + 1

/-- Some documents replace those with the same ids. -/
def overwrite (docs new : Docs I T C) : Docs I T C := fun id => (new id).or (docs id)

/-- What a bulk request writes: the last document counts. -/
def batchDocs [DecidableEq I] (batch : List (Doc I T C)) : Docs I T C :=
  fun id => batch.reverse.find? fun doc => doc.evidenceItemId = id

/-- `deleteByQuery` with a tenant -/
def removeTenant [DecidableEq T] (docs : Docs I T C) (tenantId : T) : Docs I T C :=
  fun id => (docs id).filter fun doc => doc.tenantId ≠ tenantId

namespace Cluster

variable (s : Cluster I T C)

/-- The documents of an index. -/
def docs (x : ℕ) : Docs I T C := (s.indices x).getD fun _ => none

/-- What `reindex` reads from its sources. -/
def source (current : List ℕ) : Docs I T C :=
  current.foldl (fun docs x => overwrite docs (s.docs x)) fun _ => none

/-- `indices.create` -/
def create (x : ℕ) : Cluster I T C :=
  { s with indices := Function.update s.indices x (some fun _ => none) }

/-- Documents are written into an index. -/
def put (x : ℕ) (new : Docs I T C) : Cluster I T C :=
  { s with indices := Function.update s.indices x (some (overwrite (s.docs x) new)) }

/-- `updateAliases`: the alias is taken from some indices and given to the target. -/
def swap (current : List ℕ) (target : ℕ) : Cluster I T C :=
  let kept := s.aliased.filter fun x => x ∉ current
  { s with aliased := if target ∈ kept then kept else kept ++ [target] }

/-- An index exists. -/
def Exists (x : ℕ) : Prop := s.indices x ≠ none

instance (x : ℕ) : Decidable (s.Exists x) :=
  match h : s.indices x with
  | none => isFalse fun hx => hx h
  | some _ => isTrue (by rw [Exists, h]; exact Option.some_ne_none _)

end Cluster

/-! ## What happens -/

/-- The next call of a process. -/
def call (s : Cluster I T C) : Process → Option (Cluster I T C × Process)
  | .started => some (s, if s.aliased = [] then .unfound else .found)
  | .found =>
    some (s, if s.aliased = [] then .failed
      else if mappingVersion ∈ s.aliased then .done else .looked s.aliased)
  | .looked current =>
    some (s, if s.Exists mappingVersion then .prepared current else .creating current)
  | .creating current =>
    some (if s.Exists mappingVersion then (s, .failed)
      else (s.create mappingVersion, .prepared current))
  | .prepared current => some (s.put mappingVersion (s.source current), .copied current)
  | .copied current => some (s.swap current mappingVersion, .done)
  | .unfound => some (s, if s.Exists mappingVersion then .adopting else .bootstrapping)
  | .bootstrapping =>
    some (if s.Exists mappingVersion then (s, .failed)
      else ((s.create mappingVersion).swap [] mappingVersion, .done))
  | .adopting => some (s.swap [] mappingVersion, .done)
  | .opened => some (s, if s.aliased = [] then .failed else .planned s.aliased)
  | .planned current =>
    some (if s.Exists (nextVersion current) then (s, .failed)
      else (s.create (nextVersion current), .loading current (nextVersion current)))
  | .loading current target => some (s.swap current target, .done)
  | .done | .failed => none

/-- What can happen next. -/
inductive Event (I T C : Type) : Type where
  /-- `indexBulk`, with the documents that are accepted -/
  | indexBulk (batch : List (Doc I T C))
  | deleteByTenant (tenantId : T)
  | ensureIndex
  | reindexToNewVersion
  /-- a process makes its next call -/
  | next (i : ℕ)
  /-- it loads a batch -/
  | load (i : ℕ) (batch : List (Doc I T C))
  /-- a call fails, or the process is killed -/
  | fail (i : ℕ)
  deriving DecidableEq

section Steps

variable [DecidableEq I] [DecidableEq T]

/-- A write is acknowledged if the alias points to a single index. -/
def indexBulk (s : Cluster I T C) (batch : List (Doc I T C)) : Cluster I T C :=
  match s.aliased with
  | [x] =>
    { s.put x (batchDocs batch) with
      acked := fun id => ((batchDocs batch id).map Ack.stored).getD (s.acked id) }
  | _ => s

/-- The document is one of the tenant. -/
def ofTenant (tenantId : T) (doc : Option (Doc I T C)) : Bool :=
  doc.any fun doc => doc.tenantId = tenantId

/-- The document that was acknowledged. -/
def Ack.doc : Ack I T C → Option (Doc I T C)
  | .stored doc => some doc
  | _ => none

/-- A deletion goes to all indices of the alias, if there is one. -/
def deleteByTenant (s : Cluster I T C) (tenantId : T) : Cluster I T C :=
  { s with
    indices := fun x =>
      if x ∈ s.aliased then (s.indices x).map fun docs => removeTenant docs tenantId
      else s.indices x
    acked := fun id =>
      if s.aliased ≠ [] ∧ (ofTenant tenantId (s.acked id).doc = true ∨
          ∃ x ∈ s.aliased, ofTenant tenantId (s.docs x id) = true) then .deleted
      else s.acked id }

/-- What an event does. -/
def step (s : Cluster I T C) : Event I T C → Option (Cluster I T C)
  | .indexBulk batch => some (indexBulk s batch)
  | .deleteByTenant tenantId => some (deleteByTenant s tenantId)
  | .ensureIndex => some { s with processes := s.processes ++ [.started] }
  | .reindexToNewVersion => some { s with processes := s.processes ++ [.opened] }
  | .next i =>
    s.processes[i]?.bind fun p => (call s p).map fun (s', p') =>
      { s' with processes := s.processes.set i p' }
  | .load i batch =>
    (s.processes[i]?.bind Process.target?).map fun target => s.put target (batchDocs batch)
  | .fail i => some { s with processes := s.processes.set i .failed }

end Steps

/-! ## What is asked for -/

/-- An index has what was acknowledged. -/
def Ack.Agrees : Ack I T C → Option (Doc I T C) → Prop
  | .never, _ => True
  | .stored doc, found => found = some doc
  | .deleted, found => found = none

/-- **The alias points to one index, and it has what was acknowledged.** -/
def Settled (s : Cluster I T C) : Prop :=
  ∃ x docs, s.aliased = [x] ∧ s.indices x = some docs ∧ ∀ id, (s.acked id).Agrees (docs id)

/-- There is no alias yet. -/
structure Untouched (s : Cluster I T C) : Prop where
  aliased : s.aliased = []
  acked : ∀ id, s.acked id = .never
  done : .done ∉ s.processes

/-- Once there is an alias, all is well. -/
def Good (s : Cluster I T C) : Prop := Untouched s ∨ Settled s

/-- What is written into an index that the alias points to is there already, as far as anything was
acknowledged. -/
def Harmless (s : Cluster I T C) (target : ℕ) (new : Docs I T C) : Prop :=
  target ∈ s.aliased → ∀ id, ∀ doc ∈ new id, s.acked id ≠ .never → s.docs target id = some doc

/-- The alias points to nothing but the target and what was looked up, and as far as anything was
acknowledged, the target has the same documents. -/
def Complete (s : Cluster I T C) (current : List ℕ) (target : ℕ) : Prop :=
  ∀ x ∈ s.aliased, x ≠ target → x ∈ current ∧ ∀ id, s.acked id ≠ .never →
    s.docs target id = s.docs x id

/-- What a process needs. -/
def CallClear (s : Cluster I T C) : Process → Prop
  | .prepared current => Harmless s mappingVersion (s.source current)
  | .copied current => Complete s current mappingVersion
  | .loading current target => Complete s current target
  | .adopting => Complete s [] mappingVersion
  | _ => True

/-- **A swap comes before anything has changed, and a copy before the swap of another process.** -/
def Clear [DecidableEq I] (s : Cluster I T C) : Event I T C → Prop
  | .next i => ∀ p ∈ s.processes[i]?, CallClear s p
  | .load i batch =>
    ∀ p ∈ s.processes[i]?, ∀ target ∈ p.target?, Harmless s target (batchDocs batch)
  | _ => True

section Decide

variable [Fintype I] [DecidableEq I] [DecidableEq T] [DecidableEq C]

instance Harmless.decidable (s : Cluster I T C) (target : ℕ) (new : Docs I T C) :
    Decidable (Harmless s target new) :=
  inferInstanceAs (Decidable (_ → ∀ id, ∀ doc ∈ new id, _))

instance Complete.decidable (s : Cluster I T C) (current : List ℕ) (target : ℕ) :
    Decidable (Complete s current target) :=
  inferInstanceAs (Decidable (∀ x ∈ s.aliased, _))

instance CallClear.decidable (s : Cluster I T C) : ∀ p, Decidable (CallClear s p)
  | .prepared current => Harmless.decidable s mappingVersion (s.source current)
  | .copied current => Complete.decidable s current mappingVersion
  | .loading current target => Complete.decidable s current target
  | .adopting => Complete.decidable s [] mappingVersion
  | .started | .found | .looked _ | .creating _ | .unfound | .bootstrapping | .opened | .planned _
  | .done | .failed => isTrue trivial

instance Clear.decidable (s : Cluster I T C) : ∀ e, Decidable (Clear s e)
  | .next i => inferInstanceAs (Decidable (∀ p ∈ s.processes[i]?, CallClear s p))
  | .load i batch => inferInstanceAs (Decidable
      (∀ p ∈ s.processes[i]?, ∀ target ∈ p.target?, Harmless s target (batchDocs batch)))
  | .indexBulk _ | .deleteByTenant _ | .ensureIndex | .reindexToNewVersion | .fail _ =>
    isTrue trivial

end Decide

/-! ## The cluster changes -/

section Changes

variable {s : Cluster I T C} {x target : ℕ} {current : List ℕ} {new : Docs I T C}

theorem docs_of_indices {docs : Docs I T C} (h : s.indices x = some docs) : s.docs x = docs := by
  rw [Cluster.docs, h, Option.getD_some]

theorem exists_of_indices {docs : Docs I T C} (h : s.indices x = some docs) : s.Exists x := by
  rw [Cluster.Exists, h]
  exact Option.some_ne_none docs

theorem indices_create_of_ne (h : x ≠ target) : (s.create target).indices x = s.indices x :=
  Function.update_of_ne h _ _

theorem indices_put_of_ne (h : x ≠ target) : (s.put target new).indices x = s.indices x :=
  Function.update_of_ne h _ _

theorem indices_put_self :
    (s.put target new).indices target = some (overwrite (s.docs target) new) :=
  Function.update_self _ _ _

theorem exists_create : (s.create target).Exists x ↔ x = target ∨ s.Exists x := by
  by_cases hx : x = target
  · simp [Cluster.Exists, Cluster.create, hx]
  · simp [Cluster.Exists, Cluster.create, hx]

theorem exists_put : (s.put target new).Exists x ↔ x = target ∨ s.Exists x := by
  by_cases hx : x = target
  · simp [Cluster.Exists, Cluster.put, hx]
  · simp [Cluster.Exists, Cluster.put, hx]

theorem swap_ne_nil : (s.swap current target).aliased ≠ [] := by
  rw [Cluster.swap]
  split
  · rename_i hmem
    exact List.ne_nil_of_mem hmem
  · exact List.append_ne_nil_of_right_ne_nil _ (List.cons_ne_nil _ _)

/-- Where the alias pointed to one index. -/
theorem swap_aliased (h : s.aliased = [x]) :
    (s.swap current target).aliased =
      if x = target ∨ x ∈ current then [target] else [x, target] := by
  by_cases hx : x ∈ current
  · simp [Cluster.swap, h, hx]
  · by_cases hxt : target = x
    · simp [Cluster.swap, h, hx, hxt]
    · simp [Cluster.swap, h, hx, hxt, Ne.symm hxt]

/-- An index that does not exist is none of the alias. -/
theorem good_create (hs : Good s) (hnew : ¬ s.Exists target) : Good (s.create target) := by
  rcases hs with ⟨haliased, hacked, hdone⟩ | ⟨x, docs, haliased, hdocs, hagrees⟩
  · exact .inl ⟨haliased, hacked, hdone⟩
  · refine .inr ⟨x, docs, haliased, ?_, hagrees⟩
    have hne : x ≠ target := by
      rintro rfl
      exact hnew (exists_of_indices hdocs)
    rw [indices_create_of_ne hne, hdocs]

/-- What agrees with two documents agrees with the one that replaces the other. -/
theorem agrees_or_iff {ack : Ack I T C} {old new : Option (Doc I T C)} (h : ack.Agrees old) :
    ack.Agrees (new.or old) ↔ ∀ doc, new = some doc → ack ≠ .never → old = some doc := by
  cases new with
  | none =>
    rw [Option.none_or]
    refine iff_of_true h ?_
    rintro doc ⟨⟩
  | some doc =>
    rw [Option.some_or]
    cases ack with
    | never => exact iff_of_true trivial fun _ _ hnever => absurd rfl hnever
    | stored last =>
      have hold : old = some last := h
      subst hold
      refine ⟨?_, ?_⟩
      · rintro heq doc' ⟨⟩ -
        exact heq.symm
      · exact fun hsame => (hsame doc rfl (by rintro ⟨⟩)).symm
    | deleted =>
      have hold : old = none := h
      subst hold
      refine iff_of_false (by rintro ⟨⟩) fun hsame => ?_
      cases hsame doc rfl (by rintro ⟨⟩)

/-- What was acknowledged agrees with one document only. -/
theorem agrees_iff_eq {ack : Ack I T C} {old new : Option (Doc I T C)} (h : ack.Agrees old) :
    ack.Agrees new ↔ (ack ≠ .never → new = old) := by
  cases ack with
  | never => exact iff_of_true trivial fun hnever => absurd rfl hnever
  | stored doc =>
    have hold : old = some doc := h
    rw [hold]
    exact ⟨fun hnew _ => hnew, fun hsame => hsame (by rintro ⟨⟩)⟩
  | deleted =>
    have hold : old = none := h
    rw [hold]
    exact ⟨fun hnew _ => hnew, fun hsame => hsame (by rintro ⟨⟩)⟩

/-- **Writing into an index.** -/
theorem good_put_iff (hs : Good s) : Good (s.put target new) ↔ Harmless s target new := by
  rcases hs with ⟨haliased, hacked, hdone⟩ | ⟨x, docs, haliased, hdocs, hagrees⟩
  · refine iff_of_true (.inl ⟨haliased, hacked, hdone⟩) ?_
    intro hmem
    rw [haliased] at hmem
    cases hmem
  · have hgood : Good (s.put target new) ↔
        ∃ docs', (s.put target new).indices x = some docs' ∧
          ∀ id, (s.acked id).Agrees (docs' id) := by
      refine ⟨?_, ?_⟩
      · rintro (⟨hnone, -, -⟩ | ⟨x', docs', haliased', hdocs', hagrees'⟩)
        · cases haliased.symm.trans hnone
        · obtain rfl := List.singleton_inj.mp (haliased.symm.trans haliased')
          exact ⟨docs', hdocs', hagrees'⟩
      · rintro ⟨docs', hdocs', hagrees'⟩
        exact .inr ⟨x, docs', haliased, hdocs', hagrees'⟩
    rw [hgood, Harmless, haliased, List.mem_singleton]
    by_cases hx : target = x
    · subst hx
      rw [indices_put_self, docs_of_indices hdocs]
      refine ⟨?_, ?_⟩
      · rintro ⟨docs', hdocs', hagrees'⟩ - id
        cases hdocs'
        exact (agrees_or_iff (hagrees id)).mp (hagrees' id)
      · intro hharmless
        exact ⟨_, rfl, fun id => (agrees_or_iff (hagrees id)).mpr (hharmless rfl id)⟩
    · rw [indices_put_of_ne (Ne.symm hx)]
      exact iff_of_true ⟨docs, hdocs, hagrees⟩ fun heq => absurd heq hx

/-- **Moving the alias.** -/
theorem good_swap_iff (hs : Good s) (hexists : s.Exists target) :
    Good (s.swap current target) ↔ Complete s current target := by
  obtain ⟨new, hnew⟩ := Option.ne_none_iff_exists'.mp hexists
  rcases hs with ⟨haliased, hacked, hdone⟩ | ⟨x, docs, haliased, hdocs, hagrees⟩
  · refine iff_of_true (.inr ⟨target, new, ?_, hnew, fun id => ?_⟩) ?_
    · simp [Cluster.swap, haliased]
    · change (s.acked id).Agrees (new id)
      rw [hacked id]
      trivial
    · intro x hx
      rw [haliased] at hx
      cases hx
  · have hgood : Good (s.swap current target) ↔ (x = target ∨ x ∈ current) ∧
        ∀ id, (s.acked id).Agrees (new id) := by
      refine ⟨?_, ?_⟩
      · rintro (⟨hnone, -, -⟩ | ⟨x', docs', haliased', hdocs', hagrees'⟩)
        · exact absurd hnone swap_ne_nil
        · rw [swap_aliased haliased] at haliased'
          split at haliased'
          · rename_i hmoved
            obtain rfl := List.singleton_inj.mp haliased'
            obtain rfl := Option.some.inj (hnew.symm.trans hdocs')
            exact ⟨hmoved, hagrees'⟩
          · cases haliased'
      · rintro ⟨hmoved, hagrees'⟩
        refine .inr ⟨target, new, ?_, hnew, hagrees'⟩
        rw [swap_aliased haliased, if_pos hmoved]
    rw [hgood, Complete, haliased, List.forall_mem_singleton, docs_of_indices hnew,
      docs_of_indices hdocs]
    by_cases hx : x = target
    · -- the alias pointed to the target before
      subst hx
      obtain rfl := Option.some.inj (hdocs.symm.trans hnew)
      exact iff_of_true ⟨.inl rfl, hagrees⟩ fun hne => absurd rfl hne
    · rw [or_iff_right hx]
      refine ⟨?_, ?_⟩
      · rintro ⟨hcurrent, hagrees'⟩ -
        exact ⟨hcurrent, fun id => (agrees_iff_eq (hagrees id)).mp (hagrees' id)⟩
      · intro hcomplete
        obtain ⟨hcurrent, hsame⟩ := hcomplete hx
        exact ⟨hcurrent, fun id => (agrees_iff_eq (hagrees id)).mpr (hsame id)⟩

end Changes

/-! ## Writing through the alias -/

section Writing

variable [DecidableEq I] [DecidableEq T] {s : Cluster I T C}

omit [DecidableEq T] in
theorem good_indexBulk (hs : Good s) (batch : List (Doc I T C)) : Good (indexBulk s batch) := by
  rcases hs with ⟨haliased, hacked, hdone⟩ | ⟨x, docs, haliased, hdocs, hagrees⟩
  · rw [indexBulk, haliased]
    exact .inl ⟨haliased, hacked, hdone⟩
  · rw [indexBulk, haliased]
    refine .inr ⟨x, overwrite docs (batchDocs batch), haliased, ?_, fun id => ?_⟩
    · rw [← docs_of_indices hdocs]
      exact indices_put_self
    · change Ack.Agrees (((batchDocs batch id).map Ack.stored).getD (s.acked id))
        ((batchDocs batch id).or (docs id))
      cases batchDocs batch id with
      | none => exact hagrees id
      | some doc => exact rfl

omit [DecidableEq I] in
theorem removeTenant_eq (docs : Docs I T C) (tenantId : T) (id : I) :
    removeTenant docs tenantId id =
      if ofTenant tenantId (docs id) = true then none else docs id := by
  cases hid : docs id with
  | none => simp [removeTenant, ofTenant, hid]
  | some doc => by_cases htenant : doc.tenantId = tenantId <;>
      simp [removeTenant, ofTenant, hid, htenant]

omit [DecidableEq I] in
theorem good_deleteByTenant (hs : Good s) (tenantId : T) : Good (deleteByTenant s tenantId) := by
  rcases hs with ⟨haliased, hacked, hdone⟩ | ⟨x, docs, haliased, hdocs, hagrees⟩
  · refine .inl ⟨haliased, fun id => ?_, hdone⟩
    simp [deleteByTenant, haliased, hacked]
  · refine .inr ⟨x, removeTenant docs tenantId, haliased, ?_, fun id => ?_⟩
    · simp [deleteByTenant, haliased, hdocs]
    · have hdeleted : (deleteByTenant s tenantId).acked id =
          if ofTenant tenantId (s.acked id).doc = true ∨ ofTenant tenantId (docs id) = true then
            .deleted
          else s.acked id := by
        simp [deleteByTenant, haliased, docs_of_indices hdocs]
      rw [hdeleted, removeTenant_eq]
      have hid := hagrees id
      cases hack : s.acked id with
      | never =>
        split
        · rename_i htenant
          rw [if_pos (htenant.resolve_left Bool.false_ne_true)]
          exact rfl
        · trivial
      | stored doc =>
        rw [hack] at hid
        have hdoc : docs id = some doc := hid
        rw [hdoc]
        simp only [Ack.doc, or_self]
        split <;> exact rfl
      | deleted =>
        rw [hack] at hid
        have hdoc : docs id = none := hid
        rw [hdoc, ite_self, ite_self]
        exact rfl

end Writing

/-! ## Processes -/

/-- What a process relies on. -/
def Process.Sound (s : Cluster I T C) : Process → Prop
  | .prepared _ | .copied _ | .adopting => s.Exists mappingVersion
  | .unfound | .bootstrapping => s.aliased = [] ∨ s.Exists mappingVersion
  | .planned _ => s.aliased ≠ []
  | .loading _ target => s.aliased ≠ [] ∧ s.Exists target
  | .done => s.aliased ≠ []
  | _ => True

/-- **The invariant.** -/
structure Sound (s : Cluster I T C) : Prop where
  «exists» : ∀ x ∈ s.aliased, s.Exists x
  process : ∀ p ∈ s.processes, p.Sound s

/-- Indices stay, an alias stays, and the first one is that of the mapping version. -/
structure Grows (s s' : Cluster I T C) : Prop where
  indices : ∀ x, s.Exists x → s'.Exists x
  aliased : s.aliased ≠ [] → s'.aliased ≠ []
  first : s.aliased = [] → s'.aliased = [] ∨ s'.Exists mappingVersion

theorem Grows.refl (s : Cluster I T C) : Grows s s := ⟨fun _ => id, id, .inl⟩

theorem Grows.of_eq {s s' : Cluster I T C} (hindices : s'.indices = s.indices)
    (haliased : s'.aliased = s.aliased) : Grows s s' where
  indices x hx := by rwa [Cluster.Exists, hindices]
  aliased h := haliased ▸ h
  first h := .inl (haliased.trans h)

/-- What a process relies on stays. -/
theorem Process.Sound.mono {s s' : Cluster I T C} (h : Grows s s') {p : Process} (hp : p.Sound s) :
    p.Sound s' := by
  have hfirst : s.aliased = [] ∨ s.Exists mappingVersion →
      s'.aliased = [] ∨ s'.Exists mappingVersion := by
    rintro (hnone | hexists)
    · exact h.first hnone
    · exact .inr (h.indices _ hexists)
  cases p with
  | prepared | copied | adopting => exact h.indices _ hp
  | unfound | bootstrapping => exact hfirst hp
  | planned | done => exact h.aliased hp
  | loading current target => exact ⟨h.aliased hp.1, h.indices _ hp.2⟩
  | _ => trivial

/-- What a call does, in a cluster that is sound. -/
structure CallSound (s s' : Cluster I T C) (p' : Process) : Prop where
  grows : Grows s s'
  «exists» : ∀ x ∈ s'.aliased, s'.Exists x
  process : p'.Sound s'
  processes : s'.processes = s.processes

section Calls

variable {s s' : Cluster I T C} {p p' : Process} {x target : ℕ} {current : List ℕ}

/-- A call that only looks. -/
theorem CallSound.look (hs : Sound s) (hp' : p'.Sound s) : CallSound s s p' :=
  ⟨.refl s, hs.exists, hp', rfl⟩

theorem grows_create (target : ℕ) : Grows s (s.create target) where
  indices _ hx := exists_create.mpr (.inr hx)
  aliased := id
  first := .inl

theorem grows_put (target : ℕ) (new : Docs I T C) : Grows s (s.put target new) where
  indices _ hx := exists_put.mpr (.inr hx)
  aliased := id
  first := .inl

theorem grows_swap (hexists : s.aliased = [] → s.Exists mappingVersion) :
    Grows s (s.swap current target) where
  indices _ := id
  aliased _ := swap_ne_nil
  first h := .inr (hexists h)

theorem CallSound.create (hs : Sound s) (hp' : p'.Sound (s.create target)) :
    CallSound s (s.create target) p' :=
  ⟨grows_create target, fun _ hx => exists_create.mpr (.inr (hs.exists _ hx)), hp', rfl⟩

/-- The alias is given to an index that exists. -/
theorem CallSound.swap (hs : Sound s) (htarget : s.Exists target)
    (hfirst : s.aliased = [] → s.Exists mappingVersion) :
    CallSound s (s.swap current target) .done := by
  refine ⟨grows_swap hfirst, fun x hx => ?_, swap_ne_nil, rfl⟩
  have hmem : x ∈ s.aliased ∨ x = target := by
    rw [Cluster.swap] at hx
    split at hx
    · exact .inl (List.mem_filter.mp hx).1
    · rcases List.mem_append.mp hx with hx | hx
      · exact .inl (List.mem_filter.mp hx).1
      · exact .inr (List.mem_singleton.mp hx)
  rcases hmem with hx | rfl
  · exact hs.exists x hx
  · exact htarget

theorem call_sound (hs : Sound s) (hp : p.Sound s) (h : call s p = some (s', p')) :
    CallSound s s' p' := by
  cases p with
  | started =>
    cases h
    refine .look hs ?_
    split
    · rename_i hnone
      exact .inl hnone
    · trivial
  | found =>
    cases h
    refine .look hs ?_
    split
    · trivial
    · rename_i hsome
      split
      · exact hsome
      · trivial
  | looked current =>
    cases h
    refine .look hs ?_
    split
    · rename_i hexists
      exact hexists
    · trivial
  | creating current =>
    simp only [call] at h
    split at h <;> cases h
    · exact .look hs trivial
    · exact .create hs (exists_create.mpr (.inl rfl))
  | prepared current =>
    cases h
    exact ⟨grows_put _ _, fun _ hx => exists_put.mpr (.inr (hs.exists _ hx)),
      exists_put.mpr (.inl rfl), rfl⟩
  | copied current | adopting =>
    cases h
    exact .swap hs hp fun _ => hp
  | unfound =>
    cases h
    refine .look hs ?_
    split
    · rename_i hexists
      exact hexists
    · exact hp
  | bootstrapping =>
    simp only [call] at h
    split at h <;> cases h
    · exact .look hs trivial
    · -- the index is created with the alias
      have hcreated : (s.create mappingVersion).Exists mappingVersion :=
        exists_create.mpr (.inl rfl)
      have hsound : Sound (s.create mappingVersion) :=
        ⟨fun x hx => exists_create.mpr (.inr (hs.exists x hx)),
          fun p hp => (hs.process p hp).mono (grows_create _)⟩
      have hswap : CallSound (s.create mappingVersion)
          ((s.create mappingVersion).swap [] mappingVersion) .done :=
        .swap hsound hcreated fun _ => hcreated
      exact ⟨⟨fun x hx => hswap.grows.indices x (exists_create.mpr (.inr hx)), hswap.grows.aliased,
        hswap.grows.first⟩, hswap.exists, hswap.process, hswap.processes⟩
  | opened =>
    cases h
    refine .look hs ?_
    split
    · trivial
    · rename_i hsome
      exact hsome
  | planned current =>
    simp only [call] at h
    split at h <;> cases h
    · exact .look hs trivial
    · exact .create hs ⟨hp, exists_create.mpr (.inl rfl)⟩
  | loading current target =>
    cases h
    exact .swap hs hp.2 fun hnone => absurd hnone hp.1
  | done => cases h
  | failed => cases h

/-- What a call keeps. -/
theorem good_call_iff (hp : p.Sound s) (hgood : Good s)
    (h : call s p = some (s', p')) : Good s' ↔ CallClear s p := by
  cases p with
  | creating current | planned current =>
    simp only [call] at h
    split at h <;> cases h
    · exact iff_of_true hgood trivial
    · rename_i hnew
      exact iff_of_true (good_create hgood hnew) trivial
  | prepared current =>
    cases h
    exact good_put_iff hgood
  | copied current | adopting =>
    cases h
    exact good_swap_iff hgood hp
  | bootstrapping =>
    simp only [call] at h
    split at h <;> cases h
    · exact iff_of_true hgood trivial
    · rename_i hnew
      refine iff_of_true ((good_swap_iff (good_create hgood hnew)
        (exists_create.mpr (.inl rfl))).mpr fun x hx => ?_) trivial
      have hnone : s.aliased = [] := hp.resolve_right hnew
      rw [show (s.create mappingVersion).aliased = [] from hnone] at hx
      cases hx
  | loading current target =>
    cases h
    exact good_swap_iff hgood hp.2
  | done => cases h
  | failed => cases h
  | _ =>
    cases h
    exact iff_of_true hgood trivial

end Calls

/-! ## Runs -/

section Runs

variable {s s' : Cluster I T C}

/-- Whether all is well does not depend on the processes. -/
theorem good_iff_of_sound (hs : Sound s) :
    Good s ↔ (s.aliased = [] ∧ ∀ id, s.acked id = .never) ∨ Settled s := by
  refine or_congr_left ⟨fun h => ⟨h.aliased, h.acked⟩, ?_⟩
  rintro ⟨haliased, hacked⟩
  exact ⟨haliased, hacked, fun hdone => hs.process _ hdone haliased⟩

/-- A cluster at rest: there is no alias, or it points to one index with everything that was
acknowledged. -/
structure Resting (s : Cluster I T C) : Prop where
  good : Good s
  processes : s.processes = []

theorem Resting.sound (h : Resting s) : Sound s := by
  refine ⟨fun x hx => ?_, fun p hp => ?_⟩
  · rcases h.good with ⟨haliased, -, -⟩ | ⟨x', docs, haliased, hdocs, -⟩
    · rw [haliased] at hx
      cases hx
    · rw [haliased] at hx
      obtain rfl := List.mem_singleton.mp hx
      exact exists_of_indices hdocs
  · rw [h.processes] at hp
    cases hp

theorem Sound.grow (hs : Sound s) (hgrows : Grows s s') (hexists : ∀ x ∈ s'.aliased, s'.Exists x)
    (hprocesses : ∀ p ∈ s'.processes, p ∈ s.processes ∨ p.Sound s') : Sound s' where
  «exists» := hexists
  process p hp := (hprocesses p hp).elim (fun hold => (hs.process p hold).mono hgrows) id

/-- A process starts. -/
theorem Sound.start (hs : Sound s) {p : Process} (hp : p.Sound s) :
    Sound { s with processes := s.processes ++ [p] } := by
  refine hs.grow (.of_eq rfl rfl) hs.exists fun q hq => ?_
  refine (List.mem_append.mp hq).imp_right fun hq => ?_
  obtain rfl := List.mem_singleton.mp hq
  exact hp.mono (.of_eq rfl rfl)

variable [DecidableEq T]

theorem grows_deleteByTenant (tenantId : T) : Grows s (deleteByTenant s tenantId) where
  indices x hx := by
    simp only [Cluster.Exists, deleteByTenant]
    split
    · exact fun hnone => hx (Option.map_eq_none_iff.mp hnone)
    · exact hx
  aliased := id
  first := .inl

variable [DecidableEq I]

theorem sound_step {e : Event I T C} (hs : Sound s) (h : step s e = some s') : Sound s' := by
  cases e with
  | indexBulk batch =>
    cases h
    rw [indexBulk]
    split
    · rename_i x _
      have hput := grows_put (s := s) x (batchDocs batch)
      exact hs.grow ⟨hput.indices, hput.aliased, hput.first⟩
        (fun x hx => exists_put.mpr (.inr (hs.exists x hx))) fun p hp => .inl hp
    · exact hs
  | deleteByTenant tenantId =>
    cases h
    exact hs.grow (grows_deleteByTenant tenantId)
      (fun x hx => (grows_deleteByTenant tenantId).indices x (hs.exists x hx)) fun p hp => .inl hp
  | ensureIndex | reindexToNewVersion =>
    cases h
    exact hs.start trivial
  | next i =>
    obtain ⟨p, hi, h⟩ := Option.bind_eq_some_iff.mp h
    obtain ⟨⟨s'', p'⟩, hcall, rfl⟩ := Option.map_eq_some_iff.mp h
    have hcallsound := call_sound hs (hs.process p (List.mem_of_getElem? hi)) hcall
    refine hs.grow ⟨hcallsound.grows.indices, hcallsound.grows.aliased, hcallsound.grows.first⟩
      hcallsound.exists fun q hq => ?_
    refine (List.mem_or_eq_of_mem_set hq).imp_right ?_
    rintro rfl
    exact hcallsound.process.mono (.of_eq rfl rfl)
  | load i batch =>
    obtain ⟨target, -, rfl⟩ := Option.map_eq_some_iff.mp h
    exact hs.grow (grows_put _ _) (fun x hx => exists_put.mpr (.inr (hs.exists x hx)))
      fun p hp => .inl hp
  | fail i =>
    cases h
    refine hs.grow (.of_eq rfl rfl) hs.exists fun p hp => ?_
    refine (List.mem_or_eq_of_mem_set hp).imp_right ?_
    rintro rfl
    trivial

/-- **An event keeps all well exactly if it is clear.** -/
theorem good_step_iff {e : Event I T C} (hs : Sound s) (hgood : Good s)
    (h : step s e = some s') : Good s' ↔ Clear s e := by
  have hsound := sound_step hs h
  cases e with
  | indexBulk batch =>
    cases h
    exact iff_of_true (good_indexBulk hgood batch) trivial
  | deleteByTenant tenantId =>
    cases h
    exact iff_of_true (good_deleteByTenant hgood tenantId) trivial
  | ensureIndex | reindexToNewVersion | fail i =>
    cases h
    exact iff_of_true ((good_iff_of_sound hsound).mpr ((good_iff_of_sound hs).mp hgood)) trivial
  | next i =>
    obtain ⟨p, hi, h⟩ := Option.bind_eq_some_iff.mp h
    obtain ⟨⟨s'', p'⟩, hcall, rfl⟩ := Option.map_eq_some_iff.mp h
    have hp := hs.process p (List.mem_of_getElem? hi)
    have hcallsound := call_sound hs hp hcall
    have hs'' : Sound s'' := hs.grow hcallsound.grows hcallsound.exists fun q hq =>
      .inl (hcallsound.processes ▸ hq)
    have hclear : Clear s (.next i) ↔ CallClear s p := by
      rw [Clear, hi]
      exact ⟨fun h => h p rfl, fun h q hq => Option.some.inj hq ▸ h⟩
    rw [hclear, ← good_call_iff hp hgood hcall, good_iff_of_sound hsound, good_iff_of_sound hs'']
    rfl
  | load i batch =>
    obtain ⟨target, htarget, rfl⟩ := Option.map_eq_some_iff.mp h
    obtain ⟨p, hi, htarget⟩ := Option.bind_eq_some_iff.mp htarget
    rw [good_put_iff hgood, Clear, hi]
    refine ⟨?_, ?_⟩
    · rintro hharmless q ⟨⟩ target' htarget'
      obtain rfl := Option.some.inj (htarget.symm.trans htarget')
      exact hharmless
    · exact fun hclear => hclear p rfl target htarget

/-- **The alias points to one index with everything that was acknowledged, throughout exactly the
runs in which no swap comes too late and no copy either.** -/
theorem good_iff {es : List (Event I T C)} {t : Cluster I T C} (hs : Resting s)
    (h : run step s es = some t) : Throughout step Good s es ↔ Always step Clear s es :=
  throughout_iff_always (fun _ _ _ => sound_step) (fun _ _ _ => good_step_iff) hs.sound hs.good h

end Runs

/-! ## A write in the middle of a migration -/

/-- A message as it was indexed. -/
def message (id : Bool) : Doc Bool ℕ ℕ := ⟨id, 1, 0⟩

/-- The alias points to an index of an older mapping version with one message. -/
def older : Cluster Bool ℕ ℕ where
  indices x := if x = 2 then some fun id => if id then none else some (message false) else none
  aliased := [2]
  processes := []
  acked id := if id then .never else .stored (message false)

theorem older_resting : Resting older where
  good := by
    refine .inr ⟨2, _, rfl, rfl, ?_⟩
    rintro (_ | _)
    · exact rfl
    · trivial
  processes := rfl

/-- Two workers start, and a message is indexed when the migration is over. -/
def upgraded : List (Event Bool ℕ ℕ) :=
  [.ensureIndex, .next 0, .next 0, .next 0, .next 0, .next 0, .next 0, .indexBulk [message true],
    .ensureIndex, .next 1, .next 1]

theorem upgraded_good : Throughout step Good older upgraded := by
  have hrun : ∃ t, run step older upgraded = some t := ⟨_, rfl⟩
  obtain ⟨t, ht⟩ := hrun
  exact (good_iff older_resting ht).mpr (by decide +kernel)

/-- A message is indexed between the copy and the swap. -/
def overtaken : List (Event Bool ℕ ℕ) :=
  [.ensureIndex, .next 0, .next 0, .next 0, .next 0, .next 0, .indexBulk [message true], .next 0]

/-- **The message is not in the index that the alias points to.** -/
theorem overtaken_not_good :
    ¬ ∀ es t, run step older es = some t → (∀ p ∈ t.processes, p = .done ∨ p = .failed) →
      Settled t := by
  intro h
  have hrun : ∃ t, run step older overtaken = some t ∧ t.processes = [.done] ∧
      t.aliased = [3] ∧ t.docs 3 true = none ∧ t.acked true = .stored (message true) :=
    ⟨_, rfl, rfl, rfl, rfl, rfl⟩
  obtain ⟨t, ht, hprocesses, haliased, hdocs, hacked⟩ := hrun
  obtain ⟨x, docs, hx, hindices, hagrees⟩ := h overtaken t ht (by simp [hprocesses])
  obtain rfl := List.singleton_inj.mp (haliased.symm.trans hx)
  have hmissing := hagrees true
  rw [hacked, ← docs_of_indices hindices, hdocs] at hmissing
  cases hmissing

end AegCloudDfir.Search.Migration
