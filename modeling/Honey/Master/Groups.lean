import Honey.Master.Admins
import Honey.Master.Spec

/-! Node groups as the access model: their deletion through the API and through `config_apply`.

        node in no group     --> everybody
        node in some groups  --> the users of those groups
        group deleted        --> its memberships and its grants go with it

    A node whose groups are all deleted moves from the second rule to the first, so a deletion gives
    nobody a new node exactly if every such node was everybody's before (`Covered`). -/

namespace Honey.Master
open Honey.Schemes List Table

/-! ### Groups -/

/-- `node_groups`. -/
structure NodeGroup where
  id : Uuid
  name : String
  isDefault : Bool
  note : String
  deriving DecidableEq, Repr

/-- The database with its groups. -/
structure GroupDb where
  db : Db
  groups : Table NodeGroup.id

def userNodeIds (db : Db) (user : Uuid) : List Uuid :=
  (db.nodes.rows.filter fun n => db.hasAccess n.id user).map (·.id)

/-- What the two handlers take from outside: `str::to_lowercase` and the collation of the database. -/
structure Texts where
  lower : String → String
  le : String → String → Bool

variable (t : Texts) (s : GroupDb)

def listNodeGroups : List NodeGroup :=
  s.groups.rows.insertionSort fun a b =>
    a.isDefault && !b.isDefault || a.isDefault == b.isDefault && t.le a.name b.name

/-- `DELETE FROM node_groups WHERE id = … AND NOT is_default`; memberships and grants are deleted by
    their foreign keys. -/
def deleteNodeGroup (id : Uuid) : GroupDb :=
  if (s.groups.find? id).any (!·.isDefault) then
    { db := { s.db with
        nodeGroupMembers := s.db.nodeGroupMembers.filter (·.2 ≠ id)
        userGroupAccess := s.db.userGroupAccess.filter (·.2 ≠ id) }
      groups := s.groups.keep (·.id ≠ id) }
  else s

def deleteGroup (id : Uuid) : GroupDb × Except Refusal Unit :=
  if (s.groups.find? id).any (!·.isDefault) then (deleteNodeGroup s id, .ok ())
  else (s, .error (.badRequest "group not found, or it is the default group"))

/-! ### The groups of `config_apply` -/

/-- A group of the document, with the id that it is given if it is created. -/
structure NewNodeGroup where
  (name note : String)
  id : Uuid

structure ConfigDoc where
  groups : List NewNodeGroup
  (dryRun prune : Bool)

def eqIgnoreAsciiCase (a b : String) : Bool := a.toList.map Char.toLower = b.toList.map Char.toLower

/-- What `CHECK (name <> '')` and `UNIQUE (name)` say about a row that is written. -/
def putGroup (g : NodeGroup) (s : GroupDb) : Except Refusal GroupDb :=
  if g.name = "" then .error .constraint
  else if s.groups.rows.any fun x => x.id ≠ g.id ∧ x.name = g.name then .error .conflict
  else .ok { s with groups := s.groups.put g }

def createNodeGroup (input : NewNodeGroup) (s : GroupDb) : Except Refusal GroupDb :=
  if (s.groups.find? input.id).isSome then .error .conflict
  else putGroup ⟨input.id, trim input.name, false, trim input.note⟩ s

/-- `update_node_group` with a note and no name. -/
def updateGroupNote (id : Uuid) (note : String) (s : GroupDb) : Except Refusal GroupDb :=
  match s.groups.find? id with
  | none => .ok s
  | some cur => putGroup { cur with name := trim cur.name, note := trim note } s

/-- What the loop does with one group of the document; `existing` was read before it. -/
def storeGroup (existing : List NodeGroup) (input : NewNodeGroup) : GroupDb → Except Refusal GroupDb :=
  match existing.find? fun g => eqIgnoreAsciiCase g.name (trim input.name) with
  | some cur => fun s => if cur.note ≠ input.note then updateGroupNote cur.id input.note s else .ok s
  | none => createNodeGroup input

/-- The groups that `prune` deletes, in their order. -/
def prunedGroups (existing : List NodeGroup) (doc : ConfigDoc) : List NodeGroup :=
  existing.filter fun g => !g.isDefault && t.lower g.name ∉ doc.groups.map fun x => t.lower (trim x.name)

/-- The part of `config_apply` about groups, where the database fails after `upto` deletions. -/
def configGroups (doc : ConfigDoc) (upto : ℕ) (s : GroupDb) : GroupDb :=
  let existing := listNodeGroups t s
  if doc.dryRun then s
  else match statements (doc.groups.map (storeGroup existing)) s with
    | (s', .error _) => s'
    | (s', .ok _) =>
      if doc.prune then ((prunedGroups t existing doc).take upto).foldl (deleteNodeGroup · ·.id) s'
      else s'

/-- A request that deletes groups. -/
inductive Removal where
  | api (id : Uuid)
  | apply (doc : ConfigDoc) (upto : ℕ)

def Removal.run : Removal → GroupDb
  | .api id => (deleteGroup s id).1
  | .apply doc upto => configGroups t doc upto s

/-! ### What a request deletes -/

/-- The document is applied, and each of its groups can be stored. -/
def Pruning (doc : ConfigDoc) : Prop :=
  doc.dryRun = false ∧ doc.prune ∧ (statements (doc.groups.map (storeGroup (listNodeGroups t s))) s).2 = .ok ()

instance (t : Texts) (s : GroupDb) (doc : ConfigDoc) : Decidable (Pruning t s doc) :=
  inferInstanceAs (Decidable (_ ∧ _ ∧ _))

/-- The groups that a request deletes: the one it names, unless that is the default one; with `prune`
    those that the document does not name. -/
def Removal.groups : Removal → List Uuid
  | .api id => if (s.groups.find? id).any (!·.isDefault) then [id] else []
  | .apply doc upto =>
    if Pruning t s doc then ((prunedGroups t (listNodeGroups t s) doc).take upto).map (·.id) else []

/-- Every node that is left without a group was everybody's already. -/
def Covered (db : Db) (deleted : List Uuid) : Prop :=
  ∀ n ∈ db.nodes.rows, (∃ m ∈ db.nodeGroupMembers, m.1 = n.id) →
    (∀ m ∈ db.nodeGroupMembers, m.1 = n.id → m.2 ∈ deleted) →
    ∀ u ∈ db.users.rows, ∃ m ∈ db.nodeGroupMembers, m.1 = n.id ∧ (u.id, m.2) ∈ db.userGroupAccess

/-- The database without the memberships and grants of some groups. -/
def Db.withoutGroups (db : Db) (deleted : List Uuid) : Db :=
  { db with
    nodeGroupMembers := db.nodeGroupMembers.filter (·.2 ∉ deleted)
    userGroupAccess := db.userGroupAccess.filter (·.2 ∉ deleted) }

section

variable {t : Texts} {s s' : GroupDb} {db : Db} {deleted : List Uuid} {n u : Uuid}

theorem withoutGroups_nil : db.withoutGroups [] = db := by
  simp [Db.withoutGroups]

theorem withoutGroups_cons (id : Uuid) :
    (db.withoutGroups [id]).withoutGroups deleted = db.withoutGroups (id :: deleted) := by
  simp [Db.withoutGroups, Bool.and_comm]

theorem deleteNodeGroup_db {id : Uuid} (h : (s.groups.find? id).any (!·.isDefault)) :
    (deleteNodeGroup s id).db = s.db.withoutGroups [id] := by
  rw [deleteNodeGroup, if_pos h]
  simp [Db.withoutGroups]

theorem find?_deleteNodeGroup {id k : Uuid} (h : k ≠ id) :
    (deleteNodeGroup s id).groups.find? k = s.groups.find? k := by
  rw [deleteNodeGroup]
  split
  · exact (find?_keep_ne).trans (if_neg h)
  · rfl

theorem foldl_deleteNodeGroup : ∀ (gs : List NodeGroup) (s : GroupDb), (gs.map (·.id)).Nodup →
    (∀ g ∈ gs, (s.groups.find? g.id).any (!·.isDefault)) →
    (gs.foldl (deleteNodeGroup · ·.id) s).db = s.db.withoutGroups (gs.map (·.id))
  | [], s, _, _ => withoutGroups_nil.symm
  | g :: gs, s, hnodup, h => by
    rw [map_cons, nodup_cons] at hnodup
    have hrest : ∀ x ∈ gs, ((deleteNodeGroup s g.id).groups.find? x.id).any (!·.isDefault) := by
      intro x hx
      have hne : x.id ≠ g.id := fun heq => hnodup.1 (heq ▸ mem_map_of_mem hx)
      rw [find?_deleteNodeGroup hne]
      exact h x (mem_cons_of_mem g hx)
    rw [foldl_cons, foldl_deleteNodeGroup gs _ hnodup.2 hrest,
      deleteNodeGroup_db (h g mem_cons_self), withoutGroups_cons, map_cons]

/-- Storing a group touches the groups only, and none of them becomes the default one or goes away. -/
def Stores (s s' : GroupDb) : Prop :=
  s'.db = s.db ∧ ∀ k g, s.groups.find? k = some g → ∃ g', s'.groups.find? k = some g' ∧ g'.isDefault = g.isDefault

theorem stores_put {g : NodeGroup} (h : Stores s s') {s'' : GroupDb} (hput : putGroup g s' = .ok s'')
    (hdefault : ∀ old, s'.groups.find? g.id = some old → g.isDefault = old.isDefault) : Stores s s'' := by
  rw [putGroup] at hput
  split at hput
  · cases hput
  split at hput
  · cases hput
  obtain rfl := Except.ok.inj hput
  refine ⟨h.1, fun k old hold => ?_⟩
  obtain ⟨g', hg', hsame⟩ := h.2 k old hold
  by_cases hk : k = g.id
  · subst hk
    exact ⟨g, find?_put_self, (hdefault g' hg').trans hsame⟩
  · exact ⟨g', (find?_put_of_ne hk).trans hg', hsame⟩

theorem stores_storeGroup {existing : List NodeGroup} {input : NewNodeGroup} {s'' : GroupDb}
    (h : Stores s s') (hstore : storeGroup existing input s' = .ok s'') : Stores s s'' := by
  rw [storeGroup] at hstore
  cases hfind : existing.find? fun g => eqIgnoreAsciiCase g.name (trim input.name) with
  | some cur =>
    simp only [hfind] at hstore
    split at hstore
    · rw [updateGroupNote] at hstore
      split at hstore
      · exact Except.ok.inj hstore ▸ h
      rename_i hcur
      refine stores_put h hstore fun old hold => ?_
      obtain ⟨-, hid⟩ := find?_eq_some.mp hcur
      rw [hid, hcur] at hold
      rw [← Option.some.inj hold]
    · exact Except.ok.inj hstore ▸ h
  | none =>
    simp only [hfind] at hstore
    rw [createNodeGroup] at hstore
    split at hstore
    · cases hstore
    · rename_i hnew
      refine stores_put h hstore fun old hold => absurd ?_ hnew
      exact Option.isSome_iff_exists.mpr ⟨old, hold⟩

theorem stores_statements (existing : List NodeGroup) (inputs : List NewNodeGroup) :
    Stores s (statements (inputs.map (storeGroup existing)) s).1 := by
  refine statements_inv ?_ ⟨rfl, fun k g hg => ⟨g, hg, rfl⟩⟩
  intro statement hmem a b hok hstores
  obtain ⟨input, -, rfl⟩ := mem_map.mp hmem
  exact stores_storeGroup hstores hok

theorem mem_prunedGroups {doc : ConfigDoc} {g : NodeGroup} (h : g ∈ prunedGroups t (listNodeGroups t s) doc) :
    s.groups.find? g.id = some g ∧ g.isDefault = false := by
  obtain ⟨hmem, hpruned⟩ := mem_filter.mp h
  have hrow : g ∈ s.groups.rows := (perm_insertionSort _ _).mem_iff.mp hmem
  rw [Bool.and_eq_true] at hpruned
  exact ⟨find?_eq_some.mpr ⟨hrow, rfl⟩, by simpa using hpruned.1⟩

theorem nodup_prunedGroups (doc : ConfigDoc) : ((prunedGroups t (listNodeGroups t s) doc).map (·.id)).Nodup := by
  have hsorted : ((listNodeGroups t s).map (·.id)).Nodup :=
    ((perm_insertionSort _ _).map _).nodup_iff.mpr s.groups.nodup
  exact (filter_sublist.map _).nodup hsorted

/-- A request deletes its groups from the memberships and the grants, and nothing else. -/
theorem run_db (t : Texts) (s : GroupDb) (r : Removal) : (r.run t s).db = s.db.withoutGroups (r.groups t s) := by
  cases r with
  | api id =>
    rw [Removal.run, Removal.groups, deleteGroup]
    split
    · rename_i h
      exact deleteNodeGroup_db h
    · exact withoutGroups_nil.symm
  | apply doc upto =>
    rw [Removal.run, Removal.groups, configGroups]
    have hstores := stores_statements (s := s) (listNodeGroups t s) doc.groups
    cases hdry : doc.dryRun with
    | true => simp [Pruning, hdry, withoutGroups_nil]
    | false =>
      rw [if_neg (by decide)]
      cases hrun : statements (doc.groups.map (storeGroup (listNodeGroups t s))) s with
      | mk s' result =>
        rw [hrun] at hstores
        rcases result with e | _
        · simpa [Pruning, hrun, withoutGroups_nil] using hstores.1
        rcases hprune : doc.prune with _ | _
        · simpa [Pruning, hprune, withoutGroups_nil] using hstores.1
        rw [if_pos ⟨hdry, hprune, by rw [hrun]⟩]
        simp only [if_true]
        have hsub := take_sublist upto (prunedGroups t (listNodeGroups t s) doc)
        rw [foldl_deleteNodeGroup _ s' ((hsub.map _).nodup (nodup_prunedGroups doc)), hstores.1]
        intro g hg
        obtain ⟨hfind, hplain⟩ := mem_prunedGroups (hsub.mem hg)
        obtain ⟨g', hg', hsame⟩ := hstores.2 _ _ hfind
        simp [hg', hsame, hplain]

/-! ### Who gains a node -/

theorem hasAccess_iff : db.hasAccess n u ↔ (∀ m ∈ db.nodeGroupMembers, m.1 ≠ n) ∨
    ∃ m ∈ db.nodeGroupMembers, m.1 = n ∧ (u, m.2) ∈ db.userGroupAccess := by
  simp [Db.hasAccess]

theorem mem_userNodeIds {n : Node} (hn : n ∈ db.nodes.rows) : n.id ∈ userNodeIds db u ↔ db.hasAccess n.id u := by
  simp only [userNodeIds, mem_map, mem_filter]
  constructor
  · rintro ⟨row, ⟨-, haccess⟩, hid⟩
    rwa [hid] at haccess
  · exact fun haccess => ⟨n, ⟨hn, haccess⟩, rfl⟩

theorem hasAccess_withoutGroups : (db.withoutGroups deleted).hasAccess n u ↔
    (∀ m ∈ db.nodeGroupMembers, m.1 = n → m.2 ∈ deleted) ∨
      ∃ m ∈ db.nodeGroupMembers, m.2 ∉ deleted ∧ m.1 = n ∧ (u, m.2) ∈ db.userGroupAccess := by
  rw [hasAccess_iff]
  refine or_congr ?_ ?_
  · simp only [Db.withoutGroups, mem_filter, decide_eq_true_eq, and_imp]
    refine forall₂_congr fun m _ => ?_
    rw [not_imp_comm, not_not]
  · simp only [Db.withoutGroups, mem_filter, decide_eq_true_eq]
    tauto

end

/-- Whatever the request, whatever the state: no user gains a node by the deletion exactly if every
    node that it leaves without a group was everybody's already. -/
theorem deletion_gives_nothing_iff (t : Texts) (s : GroupDb) (r : Removal) :
    (∀ u ∈ s.db.users.rows, ∀ n, n ∈ userNodeIds (r.run t s).db u.id → n ∈ userNodeIds s.db u.id) ↔
      Covered s.db (r.groups t s) := by
  have hreach : ∀ db u n, n ∈ userNodeIds db u ↔ ∃ row ∈ db.nodes.rows, db.hasAccess row.id u ∧ row.id = n := by
    simp [userNodeIds, and_assoc]
  simp only [hreach, run_db]
  constructor
  · intro hkept n hn hgrouped horphan u hu
    obtain ⟨row, -, haccess, hrow⟩ := hkept u hu n.id ⟨n, hn, hasAccess_withoutGroups.mpr (.inl horphan), rfl⟩
    rw [hrow] at haccess
    rcases hasAccess_iff.mp haccess with huniversal | hshared
    · obtain ⟨m, hm, hmn⟩ := hgrouped
      exact absurd hmn (huniversal m hm)
    · exact hshared
  · rintro hcovered u hu n ⟨row, hrow, haccess, rfl⟩
    refine ⟨row, hrow, hasAccess_iff.mpr ?_, rfl⟩
    rcases hasAccess_withoutGroups.mp haccess with horphan | ⟨m, hm, -, hmn, hgrant⟩
    · by_cases hgrouped : ∃ m ∈ s.db.nodeGroupMembers, m.1 = row.id
      · exact .inr (hcovered row hrow hgrouped horphan u hu)
      · exact .inl fun m hm hmn => hgrouped ⟨m, hm, hmn⟩
    · exact .inr ⟨m, hm, hmn, hgrant⟩

/-- One node in the group 7, one user in none. -/
def groupedDb : GroupDb where
  db := { Db.initial with
    nodes := empty.put ⟨1, "de", "192.0.2.1", true, false, none, none, none⟩
    users := empty.put ⟨2, "alice", "u", "p", true, 0, 0, none⟩
    nodeGroupMembers := [(1, 7)] }
  groups := empty.put ⟨7, "premium", false, ""⟩

/-- Deleting the only group of a node opens it to everybody, through either request. -/
theorem last_group_opens : userNodeIds groupedDb.db 2 = [] ∧
    userNodeIds ((Removal.api 7).run ⟨id, fun _ _ => true⟩ groupedDb).db 2 = [1] ∧
    userNodeIds ((Removal.apply ⟨[], false, true⟩ 1).run ⟨id, fun _ _ => true⟩ groupedDb).db 2 = [1] := by
  decide +kernel

end Honey.Master
