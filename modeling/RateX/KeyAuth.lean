import RateX.Services
import RateX.Transducer

/-!
# API keys over a whole history

A history of admin calls issues secrets: every `Create` that went through has
returned one, with the id of its key. `Ledger` ties the rows of `api_keys` to
these answers, one row for each, with the expiry and the policy it was issued
with and the mark of a later `Revoke`. So the key that `identify` finds for a
presented text is the one whose secret the text is (`ExactAuth`), if no other
issued secret has the hash of the text.
-/

namespace RateX

open Table Transducer Database

section KeyAuth

variable (uuid : String → Option String) (sha256 : String → String)

/-- A `Create` has answered `c`, and `later` is what has happened since. -/
def Issued (past : List (AdminEvent × Except ServiceError Answer)) (c : CreatedAPIKey)
    (later : List (AdminEvent × Except ServiceError Answer)) : Prop :=
  ∃ before e, past = before ++ (e, .ok (.key c)) :: later

def Revokes (p : AdminEvent × Except ServiceError Answer) (id : String) : Prop :=
  ∃ text, p.1.call = .revokeKey text ∧ p.2 = .ok .done ∧ uuid text = some id

/-- Who a request with a key is, after the calls `past`. -/
structure ExactAuth (past : List (AdminEvent × Except ServiceError Answer)) (db : Database)
    (now : ℚ) (req : Request) : Prop where
  known : ∀ id, (∃ r, identify sha256 db false now req = .ok r ∧ r.identity = "key:" ++ id) ↔
    ∃ c later, Issued past c later ∧ c.apiKey.id = id ∧ c.key = extractAPIKey req ∧
      (∀ p ∈ later, ¬ Revokes uuid p id) ∧ ∀ e ∈ c.apiKey.expiresAt, now < e
  policy : ∀ r, identify sha256 db false now req = .ok r → ∃ c later, Issued past c later ∧
    c.key = extractAPIKey req ∧ r.identity = "key:" ++ c.apiKey.id ∧
      ∃ p ∈ db.policies, p.id = c.apiKey.policyID ∧ r.policy = some p
  revoked : ∀ c later, Issued past c later → (∃ p ∈ later, Revokes uuid p c.apiKey.id) →
    ∀ r, identify sha256 db false now req = .ok r → r.identity ≠ "key:" ++ c.apiKey.id

/-! ## Secrets -/

theorem digitChar_not_space : ∀ d < 16, isSpace (Nat.digitChar d) = false := by decide

theorem randomAPIKey_not_space (bytes : Vector UInt8 24) :
    ∀ c ∈ (randomAPIKey bytes).toList, isSpace c = false := by
  intro c hc
  rw [randomAPIKey, String.toList_append, List.mem_append] at hc
  rcases hc with hc | hc
  · have hprefix : ("rx_live_".toList.all fun c => !isSpace c) = true := by decide
    simpa using List.all_eq_true.mp hprefix c hc
  · rw [hexEncode, String.toList_ofList, List.mem_flatMap] at hc
    obtain ⟨b, -, hc⟩ := hc
    have hb := b.toNat_lt
    simp only [List.mem_cons, List.not_mem_nil, or_false] at hc
    rcases hc with rfl | rfl
    · exact digitChar_not_space _ (by omega)
    · exact digitChar_not_space _ (by omega)

theorem trimSpace_extractAPIKey (req : Request) :
    trimSpace (extractAPIKey req) = extractAPIKey req := by
  unfold extractAPIKey bearerToken
  simp only
  split
  · exact trimSpace_trimSpace _
  · split
    · exact trimSpace_trimSpace _
    · decide

/-! ## The rows and the answers -/

/-- The row of the key `c` was issued with, as it is after `later`. -/
structure KeyRow (c : CreatedAPIKey) (later : List (AdminEvent × Except ServiceError Answer))
    (k : APIKey) : Prop where
  issued : k = { c.apiKey with revokedAt := k.revokedAt }
  live : k.revokedAt = none ↔ ∀ p ∈ later, ¬ Revokes uuid p c.apiKey.id

structure Ledger (past : List (AdminEvent × Except ServiceError Answer)) (db : Database) :
    Prop where
  wellFormed : db.WellFormed
  hash : ∀ c later, Issued past c later → c.apiKey.keyHash = sha256 c.key
  row : ∀ c later, Issued past c later → ∃ k ∈ db.apiKeys, KeyRow uuid c later k
  entry : ∀ k ∈ db.apiKeys, ∃ c later, Issued past c later ∧ KeyRow uuid c later k

variable {uuid sha256} {past later : List (AdminEvent × Except ServiceError Answer)}
  {p : AdminEvent × Except ServiceError Answer} {c : CreatedAPIKey} {k : APIKey} {db : Database}

theorem issued_concat : Issued (past ++ [p]) c later ↔
    (∃ later', later = later' ++ [p] ∧ Issued past c later') ∨ later = [] ∧ p.2 = .ok (.key c) := by
  constructor
  · rintro ⟨before, e, h⟩
    induction later using List.reverseRecOn with
    | nil =>
        obtain ⟨-, hp⟩ := List.append_inj' h rfl
        exact .inr ⟨rfl, by rw [List.cons.inj hp |>.1]⟩
    | append_singleton later' q =>
        rw [← List.cons_append, ← List.append_assoc] at h
        obtain ⟨hpast, hp⟩ := List.append_inj' h rfl
        obtain rfl := (List.cons.inj hp).1
        exact .inl ⟨later', rfl, before, e, hpast⟩
  · rintro (⟨later', rfl, before, e, rfl⟩ | ⟨rfl, hp⟩)
    · exact ⟨before, e, by rw [List.append_assoc, List.cons_append]⟩
    · exact ⟨past, p.1, by rw [← hp]⟩

theorem KeyRow.id_eq (h : KeyRow uuid c later k) : k.id = c.apiKey.id := by
  rw [h.issued]

/-- A call that does not revoke the key leaves its row what it was. -/
theorem KeyRow.keep (h : KeyRow uuid c later k) (hp : ¬ Revokes uuid p c.apiKey.id) :
    KeyRow uuid c (later ++ [p]) k where
  issued := h.issued
  live := by
    rw [h.live]
    simp only [List.forall_mem_append, List.forall_mem_singleton, hp, not_false_iff, and_true]

theorem KeyRow.revoke {now : ℚ} (h : KeyRow uuid c later k) (hp : Revokes uuid p c.apiKey.id) :
    KeyRow uuid c (later ++ [p]) { k with revokedAt := some now } where
  issued := by rw [h.issued]
  live := by
    simp only [List.forall_mem_append, List.forall_mem_singleton, hp, not_true_eq_false,
      and_false, reduceCtorEq]

/-- A call that neither issues nor revokes a key. -/
theorem Ledger.same {db' : Database} (h : Ledger uuid sha256 past db) (hwf : db'.WellFormed)
    (hkeys : db'.apiKeys = db.apiKeys) (hissue : ∀ c, p.2 ≠ .ok (.key c))
    (hrevoke : ∀ id, ¬ Revokes uuid p id) : Ledger uuid sha256 (past ++ [p]) db' where
  wellFormed := hwf
  hash := by
    intro c later hc
    rcases issued_concat.mp hc with ⟨later', rfl, hold⟩ | ⟨-, hp⟩
    · exact h.hash c later' hold
    · exact absurd hp (hissue c)
  row := by
    intro c later hc
    rcases issued_concat.mp hc with ⟨later', rfl, hold⟩ | ⟨-, hp⟩
    · obtain ⟨k, hk, hrow⟩ := h.row c later' hold
      exact ⟨k, hkeys ▸ hk, hrow.keep (hrevoke _)⟩
    · exact absurd hp (hissue c)
  entry := by
    intro k hk
    obtain ⟨c, later, hc, hrow⟩ := h.entry k (hkeys ▸ hk)
    exact ⟨c, later ++ [p], issued_concat.mpr (.inl ⟨later, rfl, hc⟩), hrow.keep (hrevoke _)⟩

theorem Ledger.issue {db' : Database} {row : APIKey} {bytes : Vector UInt8 24}
    (h : Ledger uuid sha256 past db) (hwf : db'.WellFormed)
    (hkeys : db'.apiKeys = db.apiKeys ++ [row]) (hp : p.2 = .ok (.key ⟨row, randomAPIKey bytes⟩))
    (hhash : row.keyHash = hashAPIKey sha256 (randomAPIKey bytes))
    (hlive : row.revokedAt = none) (hrevoke : ∀ id, ¬ Revokes uuid p id) :
    Ledger uuid sha256 (past ++ [p]) db' where
  wellFormed := hwf
  hash := by
    intro c later hc
    rcases issued_concat.mp hc with ⟨later', rfl, hold⟩ | ⟨-, hp'⟩
    · exact h.hash c later' hold
    · cases hp.symm.trans hp'
      rw [hhash, hashAPIKey, trimSpace_eq_self (randomAPIKey_not_space bytes)]
  row := by
    intro c later hc
    rcases issued_concat.mp hc with ⟨later', rfl, hold⟩ | ⟨rfl, hp'⟩
    · obtain ⟨k, hk, hrow⟩ := h.row c later' hold
      exact ⟨k, hkeys ▸ List.mem_append_left _ hk, hrow.keep (hrevoke _)⟩
    · cases hp.symm.trans hp'
      exact ⟨row, hkeys ▸ List.mem_append_right _ (List.mem_singleton.mpr rfl),
        rfl, iff_of_true hlive fun _ hnil => nomatch hnil⟩
  entry := by
    intro k hk
    rw [hkeys, List.mem_append, List.mem_singleton] at hk
    rcases hk with hk | rfl
    · obtain ⟨c, later, hc, hrow⟩ := h.entry k hk
      exact ⟨c, later ++ [p], issued_concat.mpr (.inl ⟨later, rfl, hc⟩), hrow.keep (hrevoke _)⟩
    · exact ⟨⟨k, randomAPIKey bytes⟩, [], issued_concat.mpr (.inr ⟨rfl, hp⟩), rfl,
        iff_of_true hlive fun _ hnil => nomatch hnil⟩

theorem Ledger.revoke {db' : Database} {now : ℚ} {id : String} (h : Ledger uuid sha256 past db)
    (hwf : db'.WellFormed) (hkeys : db'.apiKeys =
      modify APIKey.id db.apiKeys id fun k => { k with revokedAt := some now })
    (hissue : ∀ c, p.2 ≠ .ok (.key c)) (hrevoke : ∀ id', Revokes uuid p id' ↔ id' = id) :
    Ledger uuid sha256 (past ++ [p]) db' where
  wellFormed := hwf
  hash := by
    intro c later hc
    rcases issued_concat.mp hc with ⟨later', rfl, hold⟩ | ⟨-, hp⟩
    · exact h.hash c later' hold
    · exact absurd hp (hissue c)
  row := by
    intro c later hc
    rcases issued_concat.mp hc with ⟨later', rfl, hold⟩ | ⟨-, hp⟩
    · obtain ⟨k, hk, hrow⟩ := h.row c later' hold
      rw [hkeys]
      by_cases hid : k.id = id
      · exact ⟨_, mem_modify.mpr (.inr ⟨k, hk, hid, rfl⟩),
          hrow.revoke ((hrevoke _).mpr (hrow.id_eq.symm.trans hid))⟩
      · exact ⟨k, mem_modify.mpr (.inl ⟨hk, hid⟩),
          hrow.keep fun hr => hid (hrow.id_eq.trans ((hrevoke _).mp hr))⟩
    · exact absurd hp (hissue c)
  entry := by
    intro k hk
    rw [hkeys] at hk
    rcases mem_modify.mp hk with ⟨hk, hid⟩ | ⟨old, hold, hid, rfl⟩
    · obtain ⟨c, later, hc, hrow⟩ := h.entry k hk
      exact ⟨c, later ++ [p], issued_concat.mpr (.inl ⟨later, rfl, hc⟩),
        hrow.keep fun hr => hid (hrow.id_eq.trans ((hrevoke _).mp hr))⟩
    · obtain ⟨c, later, hc, hrow⟩ := h.entry old hold
      exact ⟨c, later ++ [p], issued_concat.mpr (.inl ⟨later, rfl, hc⟩),
        hrow.revoke ((hrevoke _).mpr (hrow.id_eq.symm.trans hid))⟩

theorem ledger_step (h : Ledger uuid sha256 past db) (e : AdminEvent) :
    Ledger uuid sha256 (past ++ [(e, (admin uuid sha256 db e).1)]) (admin uuid sha256 db e).2 := by
  have hwf := admin_wellFormed uuid sha256 h.wellFormed e
  have heffect := admin_effect uuid sha256 db e
  generalize (admin uuid sha256 db e).1 = answer at heffect ⊢
  generalize (admin uuid sha256 db e).2 = db' at hwf heffect ⊢
  cases heffect with
  | failed => exact h.same hwf rfl (by simp) (by simp [Revokes])
  | policyCreated honly => exact h.same hwf honly.keys (by simp) (by simp [Revokes])
  | policyUpdated honly => exact h.same hwf honly.keys (by simp) (by simp [Revokes])
  | policyDeleted honly => exact h.same hwf honly.keys (by simp) (by simp [Revokes])
  | keyCreated hhash hlive _ => exact h.issue hwf rfl rfl hhash hlive (by simp [Revokes])
  | keyRevoked hid => exact h.revoke hwf rfl (by simp) (by simp [Revokes, hid, eq_comm])
  | routeCreated _ _ => exact h.same hwf rfl (by simp) (by simp [Revokes])
  | routeUpdated _ _ => exact h.same hwf rfl (by simp) (by simp [Revokes])
  | routeDeleted _ => exact h.same hwf rfl (by simp) (by simp [Revokes])

theorem ledger_trace (h : db.WellFormed) (hempty : db.apiKeys = []) (run : List AdminEvent) :
    Ledger uuid sha256 (trace (admin uuid sha256) db run) (after (admin uuid sha256) db run) := by
  have hnone : ∀ c later, ¬ Issued [] c later := by
    rintro c later ⟨before, e, hnil⟩
    simp at hnil
  have hinit : Ledger uuid sha256 [] db :=
    ⟨h, fun c later hc => absurd hc (hnone c later), fun c later hc => absurd hc (hnone c later),
      by simp [hempty]⟩
  exact trace_invariant (admin uuid sha256) (R := fun _ _ => True) (P := fun _ => True)
    (List.pairwise_of_forall fun _ _ => trivial) (fun _ _ => trivial) hinit
    fun past s e hI _ _ => ledger_step hI e

/-! ## Who a key is -/

theorem activeKey_eq_some (h : db.WellFormed) {now : ℚ} {hash : String} {p : Policy} :
    db.activeKey now hash = some (k, p) ↔ k ∈ db.apiKeys ∧ k.keyHash = hash ∧
      k.revokedAt = none ∧ (∀ e ∈ k.expiresAt, now < e) ∧ db.policy k.policyID = some p := by
  constructor
  · intro hactive
    obtain ⟨k', hk', hrow⟩ := List.exists_of_findSome?_eq_some hactive
    split at hrow
    · rename_i hlive
      obtain ⟨q, hq, heq⟩ := Option.map_eq_some_iff.mp hrow
      cases heq
      exact ⟨hk', hlive.1, hlive.2.1, hlive.2.2, hq⟩
    · cases hrow
  · rintro ⟨hk, hhash, hlive, hexpiry, hp⟩
    refine h.keyHashes.findSome?_eq hk (by rw [if_pos ⟨hhash, hlive, hexpiry⟩, hp]; rfl) ?_
    intro s _ b hb
    split at hb
    · rename_i hs
      exact hs.1.trans hhash.symm
    · cases hb

/-- A key is a row that is not revoked, of an issued secret with the right hash. -/
theorem identify_key (h : Ledger uuid sha256 past db) {now : ℚ} {req : Request} {r : Identity}
    (hreq : extractAPIKey req ≠ "")
    (hsha : ∀ c later, Issued past c later →
      sha256 c.key = sha256 (extractAPIKey req) → c.key = extractAPIKey req)
    (hr : identify sha256 db false now req = .ok r) :
    ∃ c later k, k ∈ db.apiKeys ∧ Issued past c later ∧ KeyRow uuid c later k ∧
      c.key = extractAPIKey req ∧ k.revokedAt = none ∧ (∀ e ∈ k.expiresAt, now < e) ∧
      r.identity = "key:" ++ c.apiKey.id ∧
      ∃ p ∈ db.policies, p.id = c.apiKey.policyID ∧ r.policy = some p := by
  obtain ⟨k, p, hactive, rfl⟩ := identify_of_key hreq sha256 db false now hr
  obtain ⟨hk, hhash, hlive, hexpiry, hp⟩ := (activeKey_eq_some h.wellFormed).mp hactive
  obtain ⟨c, later, hc, hrow⟩ := h.entry k hk
  have hkey : c.key = extractAPIKey req := by
    refine hsha c later hc ?_
    have hstored : k.keyHash = c.apiKey.keyHash := by rw [hrow.issued]
    rw [← h.hash c later hc, ← hstored, hhash, hashAPIKey, trimSpace_extractAPIKey]
  refine ⟨c, later, k, hk, hc, hrow, hkey, hlive, hexpiry, by rw [hrow.id_eq], p, ?_⟩
  have hpolicy : k.policyID = c.apiKey.policyID := by rw [hrow.issued]
  exact ⟨(find_some hp).1, (find_some hp).2.trans hpolicy, rfl⟩

theorem exactAuth_of_ledger (h : Ledger uuid sha256 past db) {now : ℚ} {req : Request}
    (hreq : extractAPIKey req ≠ "") (hsha : ∀ c later, Issued past c later →
      sha256 c.key = sha256 (extractAPIKey req) → c.key = extractAPIKey req) :
    ExactAuth uuid sha256 past db now req := by
  refine ⟨fun id => ⟨?_, ?_⟩, fun r hr => ?_, fun c later hc hrevoked r hr hid => ?_⟩
  · rintro ⟨r, hr, hid⟩
    obtain ⟨c, later, k, -, hc, hrow, hkey, hlive, hexpiry, hidentity, -⟩ :=
      identify_key h hreq hsha hr
    obtain rfl := (String.append_right_inj _).mp (hidentity.symm.trans hid)
    rw [hrow.issued] at hexpiry
    exact ⟨c, later, hc, rfl, hkey, hrow.live.mp hlive, hexpiry⟩
  · rintro ⟨c, later, hc, rfl, hkey, hlive, hexpiry⟩
    obtain ⟨k, hk, hrow⟩ := h.row c later hc
    obtain ⟨p, hp, hpolicy⟩ := h.wellFormed.keyPolicy k hk
    obtain ⟨q, hq⟩ := exists_find Policy.id hp hpolicy
    have hactive : db.activeKey now (hashAPIKey sha256 (extractAPIKey req)) = some (k, q) := by
      refine (activeKey_eq_some h.wellFormed).mpr ⟨hk, ?_, hrow.live.mpr hlive, ?_, hq⟩
      · rw [hashAPIKey, trimSpace_extractAPIKey, ← hkey, ← h.hash c later hc, hrow.issued]
      · rw [hrow.issued]
        exact hexpiry
    refine ⟨⟨"key:" ++ k.id, "api_key", k.keyPrefix, some q⟩, ?_, by rw [hrow.id_eq]⟩
    simp only [identify, findByHash, hreq, ne_eq, not_false_iff, if_true, Bool.false_eq_true,
      if_false, hactive]
  · obtain ⟨c, later, k, -, hc, -, hkey, -, -, hidentity, hpolicy⟩ := identify_key h hreq hsha hr
    exact ⟨c, later, hc, hkey, hidentity, hpolicy⟩
  · obtain ⟨c', later', k', hk', -, hrow', -, hlive', -, hidentity, -⟩ :=
      identify_key h hreq hsha hr
    obtain ⟨k, hk, hrow⟩ := h.row c later hc
    have heq := (String.append_right_inj _).mp (hidentity.symm.trans hid)
    -- an id has one row, so this one is the revoked key's
    obtain rfl := h.wellFormed.keyIds.eq_of_key hk' hk
      (hrow'.id_eq.trans (heq.trans hrow.id_eq.symm))
    obtain ⟨p, hp, hrevokes⟩ := hrevoked
    exact hrow.live.mp hlive' p hp hrevokes

end KeyAuth

/-- **Keys are exact.** After any history of admin calls from tables without
keys, a request that presents a key is the key whose secret it presents, if that
was not revoked since and has not expired, under the policy that is stored for
it; otherwise it is nobody. -/
theorem keyAuth_exact (uuid : String → Option String) (sha256 : String → String) {db : Database}
    (h : db.WellFormed) (hempty : db.apiKeys = []) (run : List AdminEvent) (now : ℚ)
    {req : Request} (hreq : extractAPIKey req ≠ "")
    (hsha : ∀ c later, Issued (trace (admin uuid sha256) db run) c later →
      sha256 c.key = sha256 (extractAPIKey req) → c.key = extractAPIKey req) :
    ExactAuth uuid sha256 (trace (admin uuid sha256) db run)
      (after (admin uuid sha256) db run) now req :=
  exactAuth_of_ledger (ledger_trace h hempty run) hreq hsha

/-- The secret of 24 zero bytes. -/
def zeroSecret : String := "rx_live_000000000000000000000000000000000000000000000000"

def zeroHash (text : String) : String :=
  if text = zeroSecret then "18f6c74a91500174615185b4171f0e42cf921123be7a1cab88904c7bb80253ca"
  else ""

/-- Two keys of the free policy; the second is revoked. -/
def twoKeys : List AdminEvent :=
  [⟨0, .createKey "7" (.replicate 24 0) "shop" "1"⟩,
    ⟨1, .createKey "8" (.replicate 24 1) "app" "1"⟩, ⟨2, .revokeKey "8"⟩]

def bearerRequest : Request where
  method := "GET"
  fullPath := "/v1/products"
  path := "/v1/products"
  header := fun name => if name = "Authorization" then "Bearer " ++ zeroSecret else ""
  clientIP := "10.0.0.1"

theorem keyAuth_exact_bearer : ExactAuth some zeroHash
    (trace (admin some zeroHash) (migrated "1" "2" "3") twoKeys)
    (after (admin some zeroHash) (migrated "1" "2" "3") twoKeys) 3 bearerRequest := by
  have hpresented : extractAPIKey bearerRequest = zeroSecret := by decide +kernel
  refine keyAuth_exact some zeroHash (wellFormed_migrated (by decide) (by decide) (by decide)) rfl
    twoKeys 3 (by rw [hpresented]; decide) fun c later _ hhash => ?_
  rw [hpresented] at hhash ⊢
  by_contra hother
  simp [zeroHash, hother] at hhash

end RateX
