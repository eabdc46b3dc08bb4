import RateX.Middleware
import RateX.Services

/-!
# The table of request events

`request_events` with the `Insert` of its repository. A row is the event as the
columns hold it, under the `id` its sequence draws and the time of the insert.

The columns take a text with no zero character, of so many characters (`Fits`),
and an integer of four bytes (`Fits32`). The names of policies and the prefixes
of keys, the texts of an event that come from other tables, are of such columns
themselves (`Conforms`), and every call of the admin services keeps them so.
-/

namespace RateX

open Database

/-- A text that a column `varchar(n)` takes; excess blanks it cuts off. -/
def Fits (n : ℕ) (text : String) : Prop :=
  '\x00' ∉ text.toList ∧ ∀ c ∈ text.toList.drop n, c = ' '

def Fits32 (n : Int) : Prop := -2 ^ 31 ≤ n ∧ n < 2 ^ 31

instance (n : ℕ) (text : String) : Decidable (Fits n text) :=
  decidable_of_iff ('\x00' ∉ text.toList ∧ (text.toList.drop n).all (· = ' ') = true)
    (by simp [Fits])

instance (n : Int) : Decidable (Fits32 n) := inferInstanceAs (Decidable (_ ∧ _))

theorem varchar_fits {n : ℕ} {text : String} :
    (∃ stored, varchar n text = .ok stored) ↔ Fits n text := by
  unfold varchar
  constructor
  · rintro ⟨stored, h⟩
    split at h
    · cases h
    · rename_i hzero
      refine ⟨hzero, fun c hc => ?_⟩
      split at h
      · rename_i hlen
        rw [List.drop_eq_nil_of_le (by rwa [String.length_toList])] at hc
        cases hc
      · split at h
        · rename_i hblank
          exact of_decide_eq_true (List.all_eq_true.mp hblank c hc)
        · cases h
  · rintro ⟨hzero, hblank⟩
    rw [if_neg hzero]
    split
    · exact ⟨_, rfl⟩
    · rw [if_pos (List.all_eq_true.mpr fun c hc => decide_eq_true (hblank c hc))]
      exact ⟨_, rfl⟩

theorem integer_fits {n : Int} : (∃ stored, integer n = .ok stored) ↔ Fits32 n := by
  unfold integer Fits32
  constructor
  · rintro ⟨stored, h⟩
    split at h
    · rename_i hrange
      exact hrange
    · cases h
  · intro hrange
    exact ⟨n, if_pos hrange⟩

theorem fits32_natCast {n : ℕ} : Fits32 n ↔ n < 2 ^ 31 := by
  unfold Fits32
  omega

theorem Fits.mono {m n : ℕ} {text : String} (h : Fits m text) (hmn : m ≤ n) : Fits n text :=
  ⟨h.1, fun c hc => h.2 c (List.drop_subset_drop_left text.toList hmn hc)⟩

/-- What a column holds fits it. -/
theorem fits_of_varchar {n : ℕ} {text stored : String} (h : varchar n text = .ok stored) :
    Fits n stored := by
  unfold varchar at h
  split at h
  · cases h
  · rename_i hzero
    split at h
    · obtain rfl := Except.ok.inj h
      exact varchar_fits.mp ⟨text, by rw [varchar, if_neg hzero, if_pos ‹_›]⟩
    · split at h
      · obtain rfl := Except.ok.inj h
        rw [Fits, String.toList_ofList]
        refine ⟨fun hmem => hzero (List.mem_of_mem_take hmem), fun c hc => ?_⟩
        rw [List.drop_eq_nil_of_le (List.length_take_le n _)] at hc
        cases hc
      · cases h

/-! ## The statement -/

structure StoredEvent where
  id : ℕ
  event : RequestEvent
  createdAt : ℚ
deriving DecidableEq

def eventColumns (event : RequestEvent) : Except SqlError RequestEvent := do
  let method ← varchar 12 event.method
  let route ← varchar 255 event.route
  let identityType ← varchar 24 event.identityType
  let identityValue ← varchar 255 event.identityValue
  let policyName ← varchar 100 event.policyName
  let _ ← integer event.statusCode
  let requestLimit ← integer event.requestLimit
  let remaining ← integer event.remaining
  let retryAfter ← integer event.retryAfter
  let durationMS ← integer event.durationMS
  return { event with method, route, identityType, identityValue, policyName, requestLimit,
                      remaining, retryAfter, durationMS }

/-- The row that the statement adds. -/
def RequestEventRepository.insert (id : ℕ) (now : ℚ) (event : RequestEvent) :
    Except SqlError StoredEvent := do
  let columns ← eventColumns event
  return { id, event := columns, createdAt := now }

/-- An event that every column takes. -/
structure EventFits (event : RequestEvent) : Prop where
  method : Fits 12 event.method
  route : Fits 255 event.route
  identityType : Fits 24 event.identityType
  identityValue : Fits 255 event.identityValue
  policyName : Fits 100 event.policyName
  statusCode : event.statusCode < 2 ^ 31
  requestLimit : Fits32 event.requestLimit
  remaining : Fits32 event.remaining
  retryAfter : Fits32 event.retryAfter
  durationMS : Fits32 event.durationMS

theorem eventColumns_ok {event columns : RequestEvent} (h : eventColumns event = .ok columns) :
    EventFits event ∧ columns.allowed = event.allowed := by
  simp only [eventColumns, bind_ok] at h
  obtain ⟨_, hmethod, _, hroute, _, htype, _, hvalue, _, hname, _, hstatus, _, hlimit, _,
    hremaining, _, hretry, _, hduration, h⟩ := h
  cases h
  exact ⟨{
    method := varchar_fits.mp ⟨_, hmethod⟩
    route := varchar_fits.mp ⟨_, hroute⟩
    identityType := varchar_fits.mp ⟨_, htype⟩
    identityValue := varchar_fits.mp ⟨_, hvalue⟩
    policyName := varchar_fits.mp ⟨_, hname⟩
    statusCode := fits32_natCast.mp (integer_fits.mp ⟨_, hstatus⟩)
    requestLimit := integer_fits.mp ⟨_, hlimit⟩
    remaining := integer_fits.mp ⟨_, hremaining⟩
    retryAfter := integer_fits.mp ⟨_, hretry⟩
    durationMS := integer_fits.mp ⟨_, hduration⟩ }, rfl⟩

theorem EventFits.columns {event : RequestEvent} (h : EventFits event) :
    ∃ columns, eventColumns event = .ok columns := by
  obtain ⟨method, hmethod⟩ := varchar_fits.mpr h.method
  obtain ⟨route, hroute⟩ := varchar_fits.mpr h.route
  obtain ⟨identityType, htype⟩ := varchar_fits.mpr h.identityType
  obtain ⟨identityValue, hvalue⟩ := varchar_fits.mpr h.identityValue
  obtain ⟨policyName, hname⟩ := varchar_fits.mpr h.policyName
  obtain ⟨status, hstatus⟩ := integer_fits.mpr (fits32_natCast.mpr h.statusCode)
  obtain ⟨requestLimit, hlimit⟩ := integer_fits.mpr h.requestLimit
  obtain ⟨remaining, hremaining⟩ := integer_fits.mpr h.remaining
  obtain ⟨retryAfter, hretry⟩ := integer_fits.mpr h.retryAfter
  obtain ⟨durationMS, hduration⟩ := integer_fits.mpr h.durationMS
  simp only [eventColumns, bind_ok]
  exact ⟨_, method, hmethod, route, hroute, identityType, htype, identityValue, hvalue, policyName,
    hname, status, hstatus, requestLimit, hlimit, remaining, hremaining, retryAfter, hretry,
    durationMS, hduration, rfl⟩

/-! ## Texts from other tables -/

/-- The columns `rate_limit_policies.name` and `api_keys.key_prefix`. -/
structure Database.Conforms (db : Database) : Prop where
  name : ∀ p ∈ db.policies, Fits 100 p.name
  keyPrefix : ∀ k ∈ db.apiKeys, Fits 32 k.keyPrefix

section Conforms

variable {db db' : Database}

theorem Database.Conforms.policyOf (h : db.Conforms) {id : String} {p : Policy}
    (hp : db.policy id = some p) : Fits 100 p.name :=
  h.name p (List.mem_of_find?_eq_some hp)

theorem Database.Conforms.activeKey (h : db.Conforms) {now : ℚ} {hash : String} {k : APIKey}
    {p : Policy} (hrow : db.activeKey now hash = some (k, p)) :
    Fits 32 k.keyPrefix ∧ Fits 100 p.name := by
  obtain ⟨k', hk, hrow⟩ := List.exists_of_findSome?_eq_some hrow
  split at hrow
  · obtain ⟨q, hq, heq⟩ := Option.map_eq_some_iff.mp hrow
    cases heq
    exact ⟨h.keyPrefix k hk, h.policyOf hq⟩
  · cases hrow

theorem Database.Conforms.enabledRoute (h : db.Conforms) {method route : String} {p : Policy}
    (hrow : db.enabledRoute method route = some p) : Fits 100 p.name := by
  obtain ⟨rp, -, hrow⟩ := List.exists_of_findSome?_eq_some hrow
  split at hrow
  · exact h.policyOf hrow
  · cases hrow

theorem policyColumns_name {policy columns : Policy} (h : policyColumns policy = .ok columns) :
    Fits 100 columns.name := by
  simp only [policyColumns, bind_ok] at h
  obtain ⟨name, hname, _, -, _, -, _, -, _, -, h⟩ := h
  split at h
  · obtain rfl := Except.ok.inj h
    exact fits_of_varchar hname
  · cases h

theorem Database.Conforms.insertPolicy {drawn : String} {policy row : Policy} (h : db.Conforms)
    (hs : db.insertPolicy drawn policy = .ok (row, db')) : db'.Conforms := by
  simp only [Database.insertPolicy, bind_ok] at hs
  obtain ⟨columns, hcolumns, hs⟩ := hs
  have hname := policyColumns_name hcolumns
  split at hs
  · cases hs
  · cases hs
    refine ⟨fun p hp => ?_, h.keyPrefix⟩
    rcases List.mem_append.mp hp with hp | hp
    · exact h.name p hp
    · rw [List.mem_singleton.mp hp]
      exact hname

theorem Database.Conforms.updatePolicy {uuid : String → Option String} {id : String}
    {policy row : Policy} (h : db.Conforms)
    (hs : db.updatePolicy uuid id policy = .ok (row, db')) : db'.Conforms := by
  have hname : Fits 100 row.name := by
    simp only [Database.updatePolicy, bind_ok] at hs
    obtain ⟨columns, hcolumns, _, -, hs⟩ := hs
    have hname := policyColumns_name hcolumns
    split at hs
    · cases hs
    · split at hs
      · cases hs
      · cases hs
        exact hname
  obtain ⟨rfl, -⟩ := updatePolicy_ok hs
  refine ⟨fun p hp => ?_, h.keyPrefix⟩
  rcases Table.mem_modify.mp hp with ⟨hp, -⟩ | ⟨-, -, -, rfl⟩
  · exact h.name p hp
  · exact hname

theorem Database.Conforms.insertKey {uuid : String → Option String} {drawn name : String}
    {key row : APIKey} (h : db.Conforms)
    (hs : db.insertKey uuid drawn name key = .ok (row, db')) : db'.Conforms := by
  have htext : Fits 32 row.keyPrefix := by
    simp only [Database.insertKey, bind_ok] at hs
    obtain ⟨_, -, keyPrefix, hkeyPrefix, _, -, hs⟩ := hs
    split at hs
    · cases hs
    · split at hs
      · cases hs
      · cases hs
        exact fits_of_varchar hkeyPrefix
  obtain ⟨rfl, -⟩ := insertKey_ok hs
  refine ⟨h.name, fun k hk => ?_⟩
  rcases List.mem_append.mp hk with hk | hk
  · exact h.keyPrefix k hk
  · rw [List.mem_singleton.mp hk]
    exact htext

theorem statementsKeep_conforms (uuid : String → Option String) :
    StatementsKeep uuid Database.Conforms where
  insertPolicy h hs := h.insertPolicy hs
  updatePolicy h hs := h.updatePolicy hs
  deletePolicy h hs := by
    obtain ⟨canonical, -, -, rfl⟩ := deletePolicy_ok hs
    exact ⟨fun p hp => h.name p (Table.mem_remove.mp hp).1, h.keyPrefix⟩
  insertKey h hs := h.insertKey hs
  revokeKey h hs := by
    obtain ⟨canonical, -, rfl⟩ := revokeKey_ok hs
    refine ⟨h.name, fun k hk => ?_⟩
    rcases Table.mem_modify.mp hk with ⟨hk, -⟩ | ⟨k', hk', -, rfl⟩
    · exact h.keyPrefix k hk
    · exact h.keyPrefix k' hk'
  insertRoute h hs := by
    obtain ⟨rfl, -⟩ := insertRoute_ok hs
    exact ⟨h.name, h.keyPrefix⟩
  updateRoute h hs := by
    obtain ⟨rfl, -⟩ := updateRoute_ok hs
    exact ⟨h.name, h.keyPrefix⟩
  deleteRoute h hs := by
    obtain ⟨canonical, -, rfl⟩ := deleteRoute_ok hs
    exact ⟨h.name, h.keyPrefix⟩

/-- Whatever the admin services are called for, the texts stay such. -/
theorem admin_conforms (uuid : String → Option String) (sha256 : String → String)
    (h : db.Conforms) (e : AdminEvent) : (admin uuid sha256 db e).2.Conforms :=
  (statementsKeep_conforms uuid).admin sha256 h e

end Conforms

end RateX
