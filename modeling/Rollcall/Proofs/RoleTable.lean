import Mathlib.Logic.Function.Basic
import Rollcall.Proofs.Cache.Contents
import Rollcall.Proofs.Registry.Action

/-!
# Tables with one list for each role

A directory lists its instances in the order of their admission, whatever role they play, and a
cache lists what it knows in the order in which it has heard of it. Neither order means anything
between roles: what is asked for is the list of one role, or everybody. A `RoleTable` makes that
plain. It has one list for each role and promises nothing about the order of the roles, so whoever
goes through all of it may meet them in any order, `RoleTable.Walk`.

`Shows` relates such a table to a flat list, and every operation of a directory and of a cache keeps
the relation, with the same outcome on both sides. So the flat lists stand for tables by roles:

* `Registry.shown_by_table` — after any atomic steps, every reader of a directory gets from the table
  what it gets from the directory, up to the order in which one fan-out meets the roles;
* `ProviderCache.shown_by_table` — after any patches and clears, so does every reader of a cache.
-/

namespace Rollcall

/-- One list of instances for each role, empty for a role without one. `roles` are those that have
a list, which may have become empty; their order is of no account. -/
structure RoleTable where
  roles : List Role := []
  list : Role → List Registration := fun _ => []

namespace RoleTable

/-- What going through the whole table may meet: the lists of all roles, in some order. Which order
it is can be another one each time. -/
inductive Walk (t : RoleTable) : List Registration → Prop
  | inOrder (order : List Role) (h : order.Perm t.roles) : Walk t (order.flatMap t.list)

/-- The table with a list for a role, which is empty if there was none. -/
def withRole (t : RoleTable) (role : Role) : RoleTable :=
  if role ∈ t.roles then t else { t with roles := role :: t.roles }

def setList (t : RoleTable) (role : Role) (regs : List Registration) : RoleTable :=
  { t with list := Function.update t.list role regs }

/-! ## What a directory does -/

/-- Admits a registration under the identifier `id`: at the end of the list of its role, unless the
list has its address already. -/
def enroll (t : RoleTable) (id : InstanceId) (reg : Registration) : RoleTable × Admission :=
  let reg := { reg with id := id }
  let t := t.withRole reg.role
  match (t.list reg.role).find? (·.url = reg.url) with
  | some kept => (t, ⟨id, reg, kept, false⟩)
  | none => (t.setList reg.role (t.list reg.role ++ [reg]), ⟨id, reg, reg, true⟩)

/-- Takes the first entry with a property out of the list of a role. -/
def takeFirst? (t : RoleTable) (role : Role) (p : Registration → Bool) :
    Option (Registration × RoleTable) :=
  ((t.list role).find? p).map fun entry => (entry, t.setList role ((t.list role).eraseP p))

def remove? (t : RoleTable) (role : Role) (url : String) : Option (Registration × RoleTable) :=
  t.takeFirst? role (·.url = url)

def evict? (t : RoleTable) (stale : Registration) : Option (Registration × RoleTable) :=
  t.takeFirst? stale.role fun entry => entry.url = stale.url && entry.id = stale.id

/-- What a registrant has to be told: the lists of the roles that it requires, in the order of its
requirements, without itself. -/
def catchUp (t : RoleTable) (registrant : Registration) : Patch :=
  .ofAdded ((registrant.requires.toList.flatMap t.list).filter (!·.sameInstance registrant))

/-- The entry that an action takes out. -/
def departure? (t : RoleTable) : Action → Option Registration
  | .remove role url => (t.remove? role url).map (·.1)
  | .evict stale => (t.evict? stale).map (·.1)
  | _ => none

/-- The table after an action at a registry, which mints the identifier of an admission. -/
def follow (t : RoleTable) (r : Registry) : Action → RoleTable
  | .enroll reg => (t.enroll r.nextId reg).1
  | .remove role url => ((t.remove? role url).map (·.2)).getD t
  | .evict stale => ((t.evict? stale).map (·.2)).getD t
  | _ => t

def followAll (t : RoleTable) (r : Registry) : List Action → RoleTable
  | [] => t
  | x :: xs => followAll (t.follow r x) (r.act x) xs

/-! ## What a cache does -/

/-- Stores an instance in place of the one with its address, or else at the end of the list. -/
def store (t : RoleTable) (reg : Registration) : RoleTable :=
  let t := t.withRole reg.role
  let known := t.list reg.role
  t.setList reg.role <|
    if known.any (·.url = reg.url) then
      known.replaceF fun entry => if entry.url = reg.url then some reg else none
    else known ++ [reg]

/-- Drops the instance with the identifier of a removed one from the list of its role, or else the
one at its address. -/
def drop (t : RoleTable) (removed : Registration) : RoleTable :=
  let known := t.list removed.role
  let carries (entry : Registration) : Bool := !removed.id.isEmpty && entry.id = removed.id
  t.setList removed.role <|
    known.eraseP (if known.any carries then carries else (·.url = removed.url))

def update (t : RoleTable) : ProviderCache.Update → RoleTable
  | .apply p => p.removed.foldl drop (p.added.foldl store t)
  | .clear => {}

def get (t : RoleTable) (role : Role) : Except MemberError (List Registration) :=
  if role ∈ t.roles then .ok (t.list role) else .error (.notFound role)

/-! ## What a table shows -/

/-- A table shows a list if each of its lists is the part with that role. Nothing is said of the
order of the roles. -/
structure Shows (t : RoleTable) (entries : List Registration) : Prop where
  once : t.roles.Nodup
  list : ∀ role, t.list role = entries.filter (·.role = role)
  known : ∀ entry ∈ entries, entry.role ∈ t.roles

variable {t : RoleTable} {entries : List Registration}

theorem Shows.empty : Shows {} [] := ⟨List.nodup_nil, fun _ => rfl, nofun⟩

/-- In whatever order the roles are met, everybody is, and those of one role in their order. -/
theorem Shows.walk (h : t.Shows entries) {regs : List Registration} (hwalk : t.Walk regs) :
    regs.Perm entries ∧ ∀ role, regs.filter (·.role = role) = entries.filter (·.role = role) := by
  obtain ⟨order, horder⟩ := hwalk
  have honce : order.Nodup := horder.nodup_iff.mpr h.once
  have hknown : ∀ entry ∈ entries, entry.role ∈ order := fun entry hentry =>
    horder.mem_iff.mpr (h.known entry hentry)
  have hlists : order.flatMap t.list = order.flatMap (Directory.ofRole ⟨entries⟩) :=
    congrArg order.flatMap (funext h.list)
  refine ⟨?_, ?_⟩
  · rw [hlists]
    exact (ProviderCache.perm_flatMap_filter honce hknown).symm
  · intro role
    by_cases hrole : role ∈ order
    · rw [hlists]
      exact Directory.filter_flatMap_ofRole ⟨entries⟩ honce hrole
    -- A role without a list is played by nobody, in the walk or in the flat list.
    · have hnone (regs : List Registration) (hregs : ∀ reg ∈ regs, reg.role ∈ order) :
          regs.filter (·.role = role) = [] := by
        apply List.filter_eq_nil_iff.mpr
        intro reg hreg hplays
        exact hrole (of_decide_eq_true hplays ▸ hregs reg hreg)
      rw [hnone entries hknown, hnone]
      intro reg hreg
      obtain ⟨other, hother, hin⟩ := List.mem_flatMap.mp hreg
      rw [h.list, List.mem_filter] at hin
      rwa [of_decide_eq_true hin.2]

theorem list_withRole (t : RoleTable) (role : Role) : (t.withRole role).list = t.list := by
  unfold withRole
  split
  · rfl
  · rfl

theorem mem_roles_withRole {role other : Role} :
    other ∈ (t.withRole role).roles ↔ other = role ∨ other ∈ t.roles := by
  unfold withRole
  split
  · next hmem =>
    constructor
    · exact Or.inr
    · rintro (rfl | hother)
      · exact hmem
      · exact hother
  · exact List.mem_cons

theorem Shows.withRole (h : t.Shows entries) (role : Role) : (t.withRole role).Shows entries := by
  refine ⟨?_, ?_, ?_⟩
  · unfold RoleTable.withRole
    split
    · exact h.once
    · next hnew => exact List.nodup_cons.mpr ⟨hnew, h.once⟩
  · rw [list_withRole]
    exact h.list
  · intro entry hentry
    exact mem_roles_withRole.mpr (Or.inr (h.known entry hentry))

/-- A change of the list of one role, and the same change of the flat list. -/
theorem Shows.setList (h : t.Shows entries) {role : Role} {regs after : List Registration}
    (hself : after.filter (·.role = role) = regs)
    (hother : ∀ other, other ≠ role →
      after.filter (·.role = other) = entries.filter (·.role = other))
    (hknown : ∀ entry ∈ after, entry.role ∈ t.roles) : (t.setList role regs).Shows after := by
  refine ⟨h.once, ?_, hknown⟩
  intro other
  show Function.update t.list role regs other = _
  by_cases hsame : other = role
  · subst hsame
    rw [Function.update_self, hself]
  · rw [Function.update_of_ne hsame, hother other hsame, h.list]

/-- One more entry is the last one of its role. -/
theorem Shows.concat (h : t.Shows entries) {reg : Registration} (hrole : reg.role ∈ t.roles) :
    (t.setList reg.role (t.list reg.role ++ [reg])).Shows (entries ++ [reg]) := by
  apply h.setList
  · rw [List.filter_append, h.list]
    simp
  · intro other hne
    rw [List.filter_append]
    simp [Ne.symm hne]
  · intro entry hentry
    rcases List.mem_append.mp hentry with hold | hnew
    · exact h.known entry hold
    · rw [List.mem_singleton.mp hnew]
      exact hrole

/-- In a flat list, the first entry with a property that only one role has is the first one with
that property in the list of the role. -/
theorem filter_eraseP {role : Role} {p q : Registration → Bool}
    (h : ∀ entry, q entry = (decide (entry.role = role) && p entry)) (other : Role) :
    (entries.eraseP q).filter (·.role = other) =
      if other = role then (entries.filter (·.role = role)).eraseP p
      else entries.filter (·.role = other) := by
  induction entries with
  | nil => simp
  | cons entry entries ih =>
      by_cases hfirst : q entry = true
      · have hboth := hfirst
        rw [h, Bool.and_eq_true, decide_eq_true_iff] at hboth
        obtain ⟨hrole, hp⟩ := hboth
        rw [List.eraseP_cons_of_pos hfirst]
        by_cases hother : other = role
        · simp [hother, hrole, hp]
        · have hne : ¬ entry.role = other := fun heq => hother (heq.symm.trans hrole)
          simp [hother, hne]
      · rw [List.eraseP_cons_of_neg hfirst, List.filter_cons, ih]
        by_cases hother : other = role
        · subst hother
          by_cases hrole : entry.role = other
          · have hp : p entry = false := by simpa [h, hrole] using hfirst
            simp [hrole, hp]
          · simp [hrole]
        · simp [hother, List.filter_cons]

theorem Shows.eraseP (h : t.Shows entries) {role : Role} {p q : Registration → Bool}
    (hq : ∀ entry, q entry = (decide (entry.role = role) && p entry)) :
    (t.setList role ((t.list role).eraseP p)).Shows (entries.eraseP q) := by
  apply h.setList
  · rw [filter_eraseP hq, if_pos rfl, h.list]
  · intro other hne
    rw [filter_eraseP hq, if_neg hne]
  · intro entry hentry
    exact h.known entry (List.mem_of_mem_eraseP hentry)

/-! ## Directories -/

theorem Shows.enroll {d : Directory} (h : t.Shows d.entries) (id : InstanceId)
    (reg : Registration) : (t.enroll id reg).1.Shows (d.enroll id reg).1.entries ∧
      (t.enroll id reg).2 = (d.enroll id reg).2 := by
  have hopen := h.withRole reg.role
  have hfind : d.find? reg.role reg.url =
      ((t.withRole reg.role).list reg.role).find? (·.url = reg.url) := by
    rw [Directory.find?_eq, hopen.list]
    rfl
  have hrole : reg.role ∈ (t.withRole reg.role).roles := mem_roles_withRole.mpr (Or.inl rfl)
  let minted : Registration := { reg with id := id }
  have hmore : (RoleTable.setList _ minted.role _).Shows (d.entries ++ [minted]) :=
    hopen.concat hrole
  simp only [RoleTable.enroll, Directory.enroll, hfind]
  cases ((t.withRole reg.role).list reg.role).find? (·.url = reg.url) with
  | some kept => exact ⟨hopen, rfl⟩
  | none => exact ⟨hmore, rfl⟩

/-- What is taken out of the flat list is what is taken out of the list of its role, and if nothing
is, both stay. -/
theorem Shows.takeFirst? {d : Directory} (h : t.Shows d.entries) {role : Role}
    {p q : Registration → Bool}
    (hq : ∀ entry, q entry = (decide (entry.role = role) && p entry)) :
    (t.takeFirst? role p).map (·.1) = (d.takeFirst? q).map (·.1) ∧
      (((t.takeFirst? role p).map (·.2)).getD t).Shows
        (((d.takeFirst? q).map (·.2)).getD d).entries := by
  have hfind : (t.list role).find? p = d.entries.find? q := by
    rw [h.list, List.find?_filter]
    congr 1
    funext entry
    rw [hq, Bool.and_eq_decide]
  rw [RoleTable.takeFirst?, Directory.takeFirst?, hfind]
  cases d.entries.find? q with
  | none => exact ⟨rfl, h⟩
  | some entry => exact ⟨rfl, h.eraseP hq⟩

theorem Shows.remove? {d : Directory} (h : t.Shows d.entries) (role : Role) (url : String) :
    (t.remove? role url).map (·.1) = (d.remove? role url).map (·.1) ∧
      (((t.remove? role url).map (·.2)).getD t).Shows
        (((d.remove? role url).map (·.2)).getD d).entries :=
  h.takeFirst? fun _ => rfl

theorem Shows.evict? {d : Directory} (h : t.Shows d.entries) (stale : Registration) :
    (t.evict? stale).map (·.1) = (d.evict? stale).map (·.1) ∧
      (((t.evict? stale).map (·.2)).getD t).Shows
        (((d.evict? stale).map (·.2)).getD d).entries :=
  h.takeFirst? fun _ => Bool.and_assoc ..

end RoleTable

namespace Registry

open RoleTable

variable {t : RoleTable} {r : Registry}

/-- One action keeps a table in step with the directory, and takes the same entry out of both. -/
theorem shows_act (h : t.Shows r.directory.entries) (x : Action) :
    (t.follow r x).Shows (r.act x).directory.entries ∧ t.departure? x = r.departure? x := by
  cases x with
  | enroll reg => exact ⟨(h.enroll r.nextId reg).1, rfl⟩
  | record id now => exact ⟨h, rfl⟩
  | announce a => exact ⟨h, rfl⟩
  | forget id => exact ⟨h, rfl⟩
  | remove role url =>
      obtain ⟨hgone, hshows⟩ := h.remove? role url
      refine ⟨?_, hgone⟩
      have hafter : (r.act (.remove role url)).directory =
          ((r.directory.remove? role url).map (·.2)).getD r.directory := by
        simp only [act, remove, depart]
        cases r.directory.remove? role url <;> rfl
      rw [hafter]
      exact hshows
  | evict stale =>
      obtain ⟨hgone, hshows⟩ := h.evict? stale
      refine ⟨?_, hgone⟩
      have hafter : (r.act (.evict stale)).directory =
          ((r.directory.evict? stale).map (·.2)).getD r.directory := by
        simp only [act, evict, depart]
        cases r.directory.evict? stale <;> rfl
      rw [hafter]
      exact hshows

theorem shows_actAll (h : t.Shows r.directory.entries) (xs : List Action) :
    (t.followAll r xs).Shows (r.actAll xs).directory.entries := by
  induction xs generalizing t r with
  | nil => exact h
  | cons x xs ih => exact ih (shows_act h x).1

/-- A directory stands for a table by roles. After any atomic steps of any callers, a query, a
catch-up, an admission and a departure have the same outcome on both. Whoever goes through all of
the table, in whatever order of the roles, meets the same instances, and those of one role in the
same order; so it finds the same identifiers, counts as many instances, and queues the same
deliveries of any news. -/
theorem shown_by_table (settings : RegistrySettings) (supply : IdSupply) (xs : List Action) :
    let start := Registry.empty settings supply
    let r := start.actAll xs
    let t := RoleTable.followAll {} start xs
    (∀ role, t.list role = r.directory.ofRole role) ∧
    (∀ reg, t.catchUp reg = r.directory.catchUp reg) ∧
    (∀ reg, (t.enroll r.nextId reg).2 = (r.enroll reg).2) ∧
    (∀ x, t.departure? x = r.departure? x) ∧
    ∀ regs, t.Walk regs →
      regs.Perm r.directory.entries ∧ regs.length = r.directory.size ∧
      (∀ role, regs.filter (·.role = role) = r.directory.ofRole role) ∧
      (∀ id, regs.any (·.id = id) = r.directory.isRegistered id) ∧
      ∀ news subject, (deliveriesOf news (regs.filter (!·.sameInstance subject))).Perm
        (deliveriesOf news (r.directory.others subject)) := by
  intro start r t
  have hshows : t.Shows r.directory.entries := shows_actAll .empty xs
  refine ⟨hshows.list, ?_, fun reg => (hshows.enroll r.nextId reg).2,
    fun x => (shows_act hshows x).2, ?_⟩
  · intro reg
    have hlists : t.list = r.directory.ofRole := funext hshows.list
    rw [RoleTable.catchUp, hlists]
    rfl
  · intro regs hwalk
    obtain ⟨hperm, hroles⟩ := hshows.walk hwalk
    refine ⟨hperm, hperm.length_eq, hroles, ?_, ?_⟩
    · intro id
      exact hperm.any_eq
    · intro news subject
      exact (hperm.filter _).filterMap _

end Registry

/-! ## Caches -/

namespace ProviderCache

open RoleTable

variable {t : RoleTable} {c : ProviderCache}

/-- A table shows a cache if it has the lists of the known roles, and no others. -/
structure ShownBy (c : ProviderCache) (t : RoleTable) : Prop where
  shows : t.Shows c.entries
  roles : ∀ role, role ∈ t.roles ↔ role ∈ c.roles

/-- Where only one entry has an address, replacing the first is replacing all. -/
theorem replaceF_eq_map {reg : Registration} {known : List Registration}
    (h : (known.map (·.url)).Nodup) :
    (known.replaceF fun entry => if entry.url = reg.url then some reg else none) =
      known.map fun entry => if entry.url = reg.url then reg else entry := by
  induction known with
  | nil => rfl
  | cons entry known ih =>
      obtain ⟨hnot, hrest⟩ := List.nodup_cons.mp h
      by_cases hurl : entry.url = reg.url
      · rw [List.replaceF_cons_of_some (p := fun entry : Registration =>
          if entry.url = reg.url then some reg else none) (if_pos hurl), List.map_cons, if_pos hurl]
        congr 1
        symm
        rw [List.map_congr_left (g := id), List.map_id]
        intro other hother
        apply if_neg
        intro hsame
        apply hnot
        show entry.url ∈ _
        rw [hurl, ← hsame]
        exact List.mem_map_of_mem hother
      · simp only [List.replaceF, if_neg hurl, List.map_cons, ih hrest]

/-- Storing in place of what is known touches the list of one role, and there the entry with the
address. -/
theorem filter_replaced (entries : List Registration) (reg : Registration) (role : Role) :
    (entries.map fun known => if known.sameInstance reg then reg else known).filter
        (·.role = role) =
      if role = reg.role then (entries.filter (·.role = reg.role)).map fun entry =>
        if entry.url = reg.url then reg else entry
      else entries.filter (·.role = role) := by
  induction entries with
  | nil => simp
  | cons entry entries ih =>
      rw [List.map_cons, List.filter_cons, List.filter_cons, List.filter_cons, ih]
      by_cases hsame : entry.role = reg.role ∧ entry.url = reg.url
      · have hin : entry.sameInstance reg = true := Registration.sameInstance_iff.mpr hsame
        by_cases hrole : role = reg.role
        · simp [hin, hrole, hsame]
        · simp [hin, hrole, hsame, Ne.symm hrole]
      · have hout : ¬ entry.sameInstance reg = true := mt Registration.sameInstance_iff.mp hsame
        rw [if_neg hout]
        by_cases hrole : role = reg.role
        · subst hrole
          by_cases hentry : entry.role = reg.role
          · have hurl : ¬ entry.url = reg.url := fun heq => hsame ⟨hentry, heq⟩
            simp [hentry, hurl]
          · simp [hentry]
        · simp [hrole]

theorem ShownBy.add (h : c.ShownBy t) (htidy : c.Tidy) (reg : Registration) :
    (c.add reg).ShownBy (t.store reg) := by
  have hopen := h.shows.withRole reg.role
  have hrole : reg.role ∈ (t.withRole reg.role).roles := mem_roles_withRole.mpr (Or.inl rfl)
  have hlist : (t.withRole reg.role).list reg.role = c.providers reg.role := hopen.list reg.role
  have hany : (c.providers reg.role).any (·.url = reg.url) =
      c.entries.any (·.sameInstance reg) := by
    rw [providers, List.any_filter]
    rfl
  refine ⟨?_, ?_⟩
  · simp only [store, hlist, hany, ProviderCache.add]
    -- An entry with the same URL is replaced where it stands, in either list; a new one comes last.
    by_cases hthere : c.entries.any (·.sameInstance reg) = true
    · have honce := htidy.nodup_urls reg.role
      rw [if_pos hthere, if_pos hthere, replaceF_eq_map honce]
      apply hopen.setList
      · rw [filter_replaced, if_pos rfl]
        rfl
      · intro other hne
        rw [filter_replaced, if_neg hne]
      · intro entry hentry
        obtain ⟨known, hknown, rfl⟩ := List.mem_map.mp hentry
        split
        · exact hrole
        · exact hopen.known known hknown
    · rw [if_neg hthere, if_neg hthere, ← hlist]
      exact hopen.concat hrole
  · intro role
    show role ∈ (t.withRole reg.role).roles ↔ _
    rw [mem_roles_withRole, mem_roles_add, h.roles]
    exact or_comm

theorem ShownBy.remove (h : c.ShownBy t) (removed : Registration) :
    (c.remove removed).ShownBy (t.drop removed) := by
  have hlist : t.list removed.role = c.providers removed.role := h.shows.list removed.role
  have hany : c.entries.any (carriesIdOf removed) = (c.providers removed.role).any
      fun entry => !removed.id.isEmpty && entry.id = removed.id := by
    rw [providers, List.any_filter]
    congr 1
    funext entry
    exact Bool.and_assoc ..
  refine ⟨?_, h.roles⟩
  simp only [drop, ProviderCache.remove, hany, hlist]
  rw [← hlist]
  cases (t.list removed.role).any fun entry => !removed.id.isEmpty && entry.id = removed.id with
  | true =>
      apply h.shows.eraseP
      exact fun entry => Bool.and_assoc ..
  | false =>
      apply h.shows.eraseP
      exact fun entry => rfl

theorem ShownBy.update (h : c.ShownBy t) (htidy : c.Tidy) (u : Update) :
    (c.update u).ShownBy (t.update u) := by
  cases u with
  | clear => exact ⟨.empty, fun _ => Iff.rfl⟩
  | apply p =>
      have hadd : ∀ (regs : List Registration) (c : ProviderCache) (t : RoleTable), c.Tidy →
          c.ShownBy t → (regs.foldl ProviderCache.add c).ShownBy (regs.foldl store t) := by
        intro regs
        induction regs with
        | nil => exact fun _ _ _ h => h
        | cons reg regs ih => exact fun c t htidy h => ih _ _ (htidy.add reg) (h.add htidy reg)
      have hremove : ∀ (regs : List Registration) (c : ProviderCache) (t : RoleTable),
          c.ShownBy t → (regs.foldl ProviderCache.remove c).ShownBy (regs.foldl drop t) := by
        intro regs
        induction regs with
        | nil => exact fun _ _ h => h
        | cons reg regs ih => exact fun c t h => ih _ _ (h.remove reg)
      exact hremove p.removed _ _ (hadd p.added c t htidy h)

/-- A cache stands for a table by roles: after any patches and clears, every role is read from the
one as from the other, and both know the same roles. -/
theorem shown_by_table (updates : List Update) :
    let c := run {} updates
    let t := updates.foldl RoleTable.update {}
    (∀ role, t.get role = c.get role) ∧ t.roles.Perm c.names := by
  intro c t
  have hshown : c.ShownBy t := by
    induction updates using List.reverseRecOn with
    | nil => exact ⟨.empty, fun _ => Iff.rfl⟩
    | append_singleton updates u ih =>
        simp only [c, t, run_concat, List.foldl_append, List.foldl_cons, List.foldl_nil]
        exact ShownBy.update ih (tidy_run updates) u
  refine ⟨?_, ?_⟩
  · intro role
    simp only [RoleTable.get, get_eq, hshown.roles, hshown.shows.list]
    rfl
  · exact (List.perm_ext_iff_of_nodup hshown.shows.once (tidy_run updates).roles).mpr hshown.roles

end ProviderCache
end Rollcall
