import AutoDeploy.Secret.Versions

namespace AutoDeploy.Secret

open Lib Lib.Result Crypto

-- An envelope of the value stored under the version's id, whatever happened to the row since it was read.
def Stems (db : DB) (vault : Vault) (v : Version) (envelope : Envelope) : Prop :=
  (∃ row, db.versions.get? v.id = some row ∧ envelope.ciphertext = row.envelope.ciphertext) ∧
    ∃ scope plaintext, vault.Carries scope plaintext envelope

-- What a call in progress may rely on.
def Call.Known (db : DB) (vault : Vault) : Call → Prop
  | .reserved r _ _ kekID kek =>
      r.plaintext.length ≤ maxPlaintextBytes ∧ Crypto.validScope r.cryptoScope = true ∧ validKeyID kekID = true ∧
        kek.length = keyBytes
  | .sealed r m =>
      m.version.id = r.versionID ∧ m.version.scope = r.scope ∧
        vault.Carries r.cryptoScope r.plaintext m.version.envelope
  | .listed v => Stems db vault v v.envelope
  | .rewrapReserved v dek newID newKey =>
      Stems db vault v v.envelope ∧ Crypto.validScope (cryptoScope v.scope v.id) = true ∧
        validKeyID v.envelope.kekID = true ∧
        (∃ oldKey, ⟨oldKey, wrapAAD v.envelope.kekID (cryptoScope v.scope v.id), dek, v.envelope.wrappedDEK⟩ ∈
          vault.cipher) ∧ validKeyID newID = true ∧ newKey.length = keyBytes
  | .rewrapSealed v envelope => Stems db vault v envelope
  | _ => True

theorem Stems.mono {db db' : DB} {vault vault' : Vault} {v : Version} {envelope : Envelope}
    (h : Stems db vault v envelope) (hdb : db.Follows db') (hvault : vault.Extends vault') :
    Stems db' vault' v envelope := by
  obtain ⟨⟨row, hrow, hsame⟩, scope, plaintext, hcarries⟩ := h
  obtain ⟨row', hrow', hfollows⟩ := hdb.versions v.id row hrow
  exact ⟨⟨row', hrow', hsame.trans hfollows.ciphertext.symm⟩, scope, plaintext, hcarries.mono hvault⟩

theorem Call.Known.mono {db db' : DB} {vault vault' : Vault} {c : Call} (h : c.Known db vault) (hdb : db.Follows db')
    (hvault : vault.Extends vault') : c.Known db' vault' := by
  cases c with
  | checked | reserved | ended => exact h
  | sealed r m =>
      obtain ⟨hid, hscope, hcarries⟩ := h
      exact ⟨hid, hscope, hcarries.mono hvault⟩
  | listed v => exact Stems.mono h hdb hvault
  | rewrapReserved v dek newID newKey =>
      obtain ⟨hstems, hscope, hid, ⟨oldKey, hsealed⟩, hrest⟩ := h
      exact ⟨hstems.mono hdb hvault, hscope, hid, ⟨oldKey, hvault.cipher _ hsealed⟩, hrest⟩
  | rewrapSealed v envelope => exact Stems.mono h hdb hvault

-- Each stored version holds what the commit that made it gave.
structure World.Intact (w : World) : Prop where
  sound : w.vault.Sound
  consistent : w.db.Consistent
  calls : ∀ c ∈ w.calls, c.Known w.db w.vault
  stored : ∀ id row head, w.db.versions.get? id = some row → w.db.heads.get? row.secretID = some head →
    ∃ c ∈ w.commits, c.mutation.version.id = id ∧
      w.vault.Carries (cryptoScope (row.version id head).scope id) c.plaintext row.envelope

-- A version keeps the scope it is stored with.
theorem DB.Follows.scope {db db' : DB} (h : db.Follows db') (hdb : db.Consistent) {id : Bytes} {row row' : VersionRow}
    {head' : Head} (hrow : db.versions.get? id = some row) (hrow' : db'.versions.get? id = some row')
    (hhead' : db'.heads.get? row'.secretID = some head') :
    ∃ head, db.heads.get? row.secretID = some head ∧ (row'.version id head').scope = (row.version id head).scope := by
  obtain ⟨found, hfound, hfollows⟩ := h.versions id row hrow
  obtain rfl := Option.some.inj (hfound.symm.trans hrow')
  obtain ⟨head, hhead⟩ := hdb.owned id row hrow
  obtain ⟨kept, hkept, hpurpose, hdelivery⟩ := h.heads row.secretID head hhead
  rw [hfollows.secretID] at hhead'
  obtain rfl := Option.some.inj (hkept.symm.trans hhead')
  refine ⟨head, hhead, ?_⟩
  simp only [VersionRow.version, hfollows.ownerID, hfollows.projectID, hfollows.environmentID, hfollows.secretID,
    hpurpose, hdelivery]

-- The head a version was committed under gives back the scope of the mutation.
theorem version_scope_of_inScope {v : Version} {head : Head} (h : head.inScope v.scope = true) :
    (v.row.version v.id head).scope = v.scope := by
  simp only [Head.inScope, Bool.and_eq_true, beq_iff_eq] at h
  obtain ⟨⟨⟨⟨_, _⟩, _⟩, hpurpose⟩, hdelivery⟩ := h
  simp only [VersionRow.version, Version.row, hpurpose, hdelivery]

namespace World.Intact

variable {w : World}

theorem known (hw : w.Intact) {i : Nat} {c : Call} (hcall : w.calls[i]? = some c) : c.Known w.db w.vault :=
  hw.calls c (List.mem_of_getElem? hcall)

theorem calls_set (hw : w.Intact) {db : DB} {vault : Vault} {i : Nat} {c : Call} (hdb : w.db.Follows db)
    (hvault : w.vault.Extends vault) (hnew : c.Known db vault) :
    ∀ call ∈ w.calls.set i c, call.Known db vault := by
  intro call hmem
  obtain hold | rfl := List.mem_or_eq_of_mem_set hmem
  · exact (hw.calls call hold).mono hdb hvault
  · exact hnew

theorem calls_append (hw : w.Intact) {c : Call} (hnew : c.Known w.db w.vault) :
    ∀ call ∈ w.calls ++ [c], call.Known w.db w.vault := by
  intro call hmem
  obtain hold | rfl := List.mem_append.1 hmem |>.imp_right List.mem_singleton.1
  · exact hw.calls call hold
  · exact hnew

-- What is stored stays readable while the cipher seals more and the tables of secrets stay.
theorem stored_extends (hw : w.Intact) {db : DB} {vault : Vault} (hheads : db.heads = w.db.heads)
    (hversions : db.versions = w.db.versions) (hvault : w.vault.Extends vault) :
    ∀ id row head, db.versions.get? id = some row → db.heads.get? row.secretID = some head →
      ∃ c ∈ w.commits, c.mutation.version.id = id ∧
        vault.Carries (cryptoScope (row.version id head).scope id) c.plaintext row.envelope := by
  intro id row head hrow hhead
  rw [hversions] at hrow
  rw [hheads] at hhead
  obtain ⟨c, hc, hid, hcarries⟩ := hw.stored id row head hrow hhead
  exact ⟨c, hc, hid, hcarries.mono hvault⟩

theorem stored_commit (hw : w.Intact) {r : Request} {m : Mutation} {db : DB}
    (hknown : (Call.sealed r m).Known w.db w.vault) (h : Committed r.kind w.db m db) :
    ∀ id row head, db.versions.get? id = some row → db.heads.get? row.secretID = some head →
      ∃ c ∈ w.commits ++ [⟨m, r.plaintext⟩], c.mutation.version.id = id ∧
        w.vault.Carries (cryptoScope (row.version id head).scope id) c.plaintext row.envelope := by
  intro id row head hrow hhead
  obtain rfl | ⟨old, hold, hsame⟩ := h.others id row hrow
  · -- the new version
    obtain rfl := Option.some.inj (h.stored.symm.trans hrow)
    obtain ⟨head', hhead', hscope⟩ := h.head
    obtain rfl := Option.some.inj (hhead'.symm.trans hhead)
    obtain ⟨hid, hscope', hcarries⟩ := hknown
    refine ⟨_, List.mem_append_right _ (List.mem_singleton.2 rfl), rfl, ?_⟩
    rw [version_scope_of_inScope hscope, hscope', hid]
    exact hcarries
  · -- an older one keeps its envelope, and only its state may have changed
    obtain ⟨head₀, hhead₀, hscope⟩ := h.follows.scope hw.consistent hold hrow hhead
    obtain ⟨c, hc, hid, hcarries⟩ := hw.stored id old head₀ hold hhead₀
    refine ⟨c, List.mem_append_left _ hc, hid, ?_⟩
    rw [hscope, hsame]
    exact hcarries

-- A rewrap may store its envelope over another that came between: both are of one value.
theorem stored_rewrap (hw : w.Intact) {v : Version} {envelope : Envelope} {db : DB}
    (hknown : (Call.rewrapSealed v envelope).Known w.db w.vault)
    (h : rewrap w.db v.scope v.id v.envelopeRevision envelope = .ok db) :
    ∀ id row head, db.versions.get? id = some row → db.heads.get? row.secretID = some head →
      ∃ c ∈ w.commits, c.mutation.version.id = id ∧
        w.vault.Carries (cryptoScope (row.version id head).scope id) c.plaintext row.envelope := by
  obtain ⟨_, _, current, hcurrent, _, _, _, rfl⟩ := Secret.rewrap_eq_ok h
  obtain ⟨⟨row₀, hrow₀, hsame⟩, scope, plaintext, hcarries⟩ := hknown
  obtain rfl := Option.some.inj (hcurrent.symm.trans hrow₀)
  intro id row head hrow hhead
  obtain ⟨rfl, rfl⟩ | hrow := Table.get?_put_cases hrow
  · obtain ⟨c, hc, hid, hstored⟩ := hw.stored v.id current head hcurrent hhead
    exact ⟨c, hc, hid, hw.sound.carries_same hstored hcarries hsame.symm⟩
  · exact hw.stored id row head hrow hhead

theorem initial (generationID : Bytes) : (World.initial generationID).Intact := by
  constructor
  · exact Vault.Sound.empty
  · exact .created generationID
  · intro c hc
    cases hc
  · intro id row head hrow
    cases hrow

theorem step (hw : w.Intact) {w' : World} (h : w.Step w') : w'.Intact := by
  have hfollows := h.follows
  have hconsistent := h.consistent hw.consistent
  have hsame := Vault.Extends.refl w.vault
  cases h with
  | begin hbegin => exact ⟨hw.sound, hconsistent, hw.calls_append trivial, hw.stored⟩
  | reserve hcall hkey hreserve =>
      obtain ⟨_, hlength, hscope, hid, hkek⟩ := encryptionKey_eq_ok hkey
      refine ⟨hw.sound, hconsistent, hw.calls_set hfollows hsame ⟨hlength, hscope, hid, hkek⟩, ?_⟩
      obtain ⟨_, _, _, _, rfl⟩ := reserveWrapInvocation_eq_ok hreserve
      exact hw.stored
  | reserveLost hreserve =>
      refine ⟨hw.sound, hconsistent, fun c hc => (hw.calls c hc).mono hfollows hsame, ?_⟩
      obtain ⟨_, _, _, _, rfl⟩ := reserveWrapInvocation_eq_ok hreserve
      exact hw.stored
  | @encrypt _ _ r _ kekID kek draw hcall hdraw =>
      obtain ⟨hlength, hscope, hid, hkek⟩ := hw.known hcall
      have hextends := w.vault.extends_encrypted kekID kek draw r.cryptoScope r.plaintext
      refine ⟨hw.sound.encrypted hdraw hlength hscope hid hkek, hconsistent, ?_, hw.stored_extends rfl rfl hextends⟩
      exact hw.calls_set hfollows hextends ⟨rfl, rfl, Vault.carries_encrypted w.vault _ _ _ _ _⟩
  | commit hcall hcommit =>
      exact ⟨hw.sound, hconsistent, hw.calls_set hfollows hsame trivial,
        hw.stored_commit (hw.known hcall) (commit_committed hcommit)⟩
  | list hrow hhead =>
      obtain ⟨c, _, _, hcarries⟩ := hw.stored _ _ _ hrow hhead
      exact ⟨hw.sound, hconsistent, hw.calls_append ⟨⟨_, hrow, rfl⟩, _, _, hcarries⟩, hw.stored⟩
  | rewrapReserve hcall hkeys hreserve =>
      obtain ⟨hscope, henvelope, hsealed, hid, hkey, _⟩ := rewrapKeys_eq_ok hkeys
      have hstems := Stems.mono (hw.known hcall) hfollows hsame
      refine ⟨hw.sound, hconsistent, hw.calls_set hfollows hsame
        ⟨hstems, hscope, validEnvelope_keyID henvelope, hsealed, hid, hkey⟩, ?_⟩
      obtain ⟨_, _, _, _, rfl⟩ := reserveWrapInvocation_eq_ok hreserve
      exact hw.stored
  | @rewrapSeal _ v dek newID newKey wrapped hcall hwrap =>
      obtain ⟨⟨hrow, _, _, hcarries⟩, hscope, hid, ⟨oldKey, hsealed⟩, hnew, hkey⟩ := hw.known hcall
      have hextends := w.vault.extends_rewrapped newID newKey dek wrapped (cryptoScope v.scope v.id) v.envelope
      refine ⟨hw.sound.rewrapped hwrap hscope hid hsealed hnew hkey, hconsistent, ?_, hw.stored_extends rfl rfl hextends⟩
      exact hw.calls_set hfollows hextends ⟨hrow, _, _, hcarries.rewrapped _ _ _ _ _⟩
  | rewrapStore hcall hstore =>
      exact ⟨hw.sound, hconsistent, hw.calls_set hfollows hsame trivial, hw.stored_rewrap (hw.known hcall) hstore⟩
  | abandon => exact ⟨hw.sound, hconsistent, hw.calls_set hfollows hsame trivial, hw.stored⟩
  | restart => exact ⟨hw.sound, hconsistent, fun c hc => absurd hc List.not_mem_nil, hw.stored⟩
  | initLedger hinit =>
      refine ⟨hw.sound, hconsistent, fun c hc => (hw.calls c hc).mono hfollows hsame, ?_⟩
      obtain ⟨_, _, _, rfl⟩ := initializeActiveLedger_eq_ok hinit
      exact hw.stored
  | audit haudit =>
      refine ⟨hw.sound, hconsistent, fun c hc => (hw.calls c hc).mono hfollows hsame, ?_⟩
      obtain ⟨_, _, _, _, rfl⟩ := appendMaterializationAudit_eq_ok haudit
      exact hw.stored

theorem of_reachable (h : secretSystem.Reachable w) : w.Intact := by
  refine Reachable.step_invariant initial ?_ h
  intro w w' hw hstep
  exact hw.step hstep

end World.Intact

-- The commits that replaced a version.
def World.replaces (w : World) : List Commit := w.commits.filter fun c => c.mutation.audit.action != .created

-- The audit rows and the versions agree with the commits, and a version that was replaced is not active.
structure World.Recorded (w : World) : Prop where
  versions : ∀ c ∈ w.commits, ∃ row, w.db.versions.get? c.mutation.version.id = some row
  ids : (w.commits.map fun c => c.mutation.version.id).Nodup
  actions : ∀ c ∈ w.commits, c.mutation.audit.action ≠ .materialized ∧
    c.mutation.audit.versionID = c.mutation.version.id
  audited : ∀ c ∈ w.commits, ∃ row, w.db.audits.get? c.mutation.audit.id = some row ∧ row.audit = c.mutation.audit
  audits : ∀ id row, w.db.audits.get? id = some row → row.audit.action ≠ .materialized →
    row.audit.id = id ∧ ∃ c ∈ w.commits, c.mutation.audit = row.audit
  retired : ∀ c ∈ w.replaces, ∃ row, w.db.versions.get? c.mutation.audit.oldVersionID = some row ∧ row.state ≠ .active
  replaced : (w.replaces.map fun c => c.mutation.audit.oldVersionID).Nodup

namespace World.Recorded

variable {w : World}

-- A step that commits nothing: versions follow, and audit rows are only added for materializations.
theorem of_follows (hw : w.Recorded) {w' : World} (hcommits : w'.commits = w.commits) (hdb : w.db.Follows w'.db)
    (hkept : ∀ id row, w.db.audits.get? id = some row → w'.db.audits.get? id = some row)
    (hadded : ∀ id row, w'.db.audits.get? id = some row → row.audit.action ≠ .materialized →
      w.db.audits.get? id = some row) : w'.Recorded := by
  have hreplaces : w'.replaces = w.replaces := by rw [World.replaces, hcommits, World.replaces]
  constructor
  case versions =>
    rw [hcommits]
    intro c hc
    obtain ⟨row, hrow⟩ := hw.versions c hc
    obtain ⟨row', hrow', _⟩ := hdb.versions _ row hrow
    exact ⟨row', hrow'⟩
  case ids =>
    rw [hcommits]
    exact hw.ids
  case actions =>
    rw [hcommits]
    exact hw.actions
  case audited =>
    rw [hcommits]
    intro c hc
    obtain ⟨row, hrow, hsame⟩ := hw.audited c hc
    exact ⟨row, hkept _ row hrow, hsame⟩
  case audits =>
    rw [hcommits]
    intro id row hrow haction
    exact hw.audits id row (hadded id row hrow haction) haction
  case retired =>
    rw [hreplaces]
    intro c hc
    obtain ⟨row, hrow, hstate⟩ := hw.retired c hc
    obtain ⟨row', hrow', hfollows⟩ := hdb.versions _ row hrow
    refine ⟨row', hrow', ?_⟩
    rw [hfollows.retired hstate]
    exact hstate
  case replaced =>
    rw [hreplaces]
    exact hw.replaced

theorem replaces_append (w : World) (db : DB) (calls : List Call) (c : Commit) :
    World.replaces { w with db := db, calls := calls, commits := w.commits ++ [c] } =
      w.replaces ++ if c.mutation.audit.action = .created then [] else [c] := by
  simp only [World.replaces, List.filter_append, List.filter_cons, List.filter_nil, bne_iff_ne, ne_eq]
  by_cases haction : c.mutation.audit.action = .created
  · rw [if_neg (not_not_intro haction), if_pos haction]
  · rw [if_pos haction, if_neg haction]

theorem action_ne_materialized (kind : Kind) : kind.action ≠ .materialized := by
  cases kind <;> decide

theorem kind_ne_create {kind : Kind} (h : kind.action ≠ .created) : kind ≠ .create := by
  rintro rfl
  exact h rfl

theorem commit (hw : w.Recorded) {r : Request} {m : Mutation} {db : DB} {calls : List Call}
    (h : Committed r.kind w.db m db) :
    World.Recorded { w with db := db, calls := calls, commits := w.commits ++ [⟨m, r.plaintext⟩] } := by
  obtain ⟨projectID, environmentID, haudits⟩ := h.audited
  have hnew {c : Commit} (hc : c ∈ w.commits ++ [⟨m, r.plaintext⟩]) : c ∈ w.commits ∨ c = ⟨m, r.plaintext⟩ :=
    (List.mem_append.1 hc).imp_right List.mem_singleton.1
  -- what an earlier replace retired stays retired
  have hretired {c : Commit} (hc : c ∈ w.replaces) :
      ∃ row, db.versions.get? c.mutation.audit.oldVersionID = some row ∧ row.state ≠ .active := by
    obtain ⟨row, hrow, hstate⟩ := hw.retired c hc
    obtain ⟨row', hrow', hfollows⟩ := h.follows.versions _ row hrow
    refine ⟨row', hrow', ?_⟩
    rw [hfollows.retired hstate]
    exact hstate
  constructor
  case versions =>
    intro c hc
    obtain hc | rfl := hnew hc
    · obtain ⟨row, hrow⟩ := hw.versions c hc
      obtain ⟨row', hrow', _⟩ := h.follows.versions _ row hrow
      exact ⟨row', hrow'⟩
    · exact ⟨_, h.stored⟩
  case ids =>
    simp only [List.map_append, List.map_cons, List.map_nil, List.nodup_append, List.nodup_singleton, List.mem_singleton,
      List.mem_map, true_and]
    refine ⟨hw.ids, ?_⟩
    rintro _ ⟨c, hc, rfl⟩ _ rfl hsame
    obtain ⟨row, hrow⟩ := hw.versions c hc
    rw [hsame, h.fresh] at hrow
    cases hrow
  case actions =>
    intro c hc
    obtain hc | rfl := hnew hc
    · exact hw.actions c hc
    · exact ⟨by rw [h.action]; exact action_ne_materialized r.kind, h.versionID⟩
  case audited =>
    intro c hc
    rw [haudits]
    obtain hc | rfl := hnew hc
    · obtain ⟨row, hrow, hsame⟩ := hw.audited c hc
      exact ⟨row, Table.get?_put_of_fresh h.audit_fresh hrow, hsame⟩
    · exact ⟨_, Table.get?_put_self _ _ _, rfl⟩
  case audits =>
    intro id row hrow haction
    rw [haudits] at hrow
    obtain ⟨rfl, rfl⟩ | hrow := Table.get?_put_cases hrow
    · exact ⟨rfl, _, List.mem_append_right _ (List.mem_singleton.2 rfl), rfl⟩
    · obtain ⟨hid, c, hc, hsame⟩ := hw.audits id row hrow haction
      exact ⟨hid, c, List.mem_append_left _ hc, hsame⟩
  case retired =>
    intro c hc
    rw [replaces_append] at hc
    obtain hc | hc := List.mem_append.1 hc
    · exact hretired hc
    · split at hc
      · cases hc
      · rename_i haction
        obtain rfl := List.mem_singleton.1 hc
        rw [h.action] at haction
        obtain ⟨_, retired, _, _, hrow, hstate⟩ := h.replaced (kind_ne_create haction)
        exact ⟨retired, hrow, hstate⟩
  case replaced =>
    rw [replaces_append]
    by_cases haction : m.audit.action = .created
    · rw [if_pos haction, List.append_nil]
      exact hw.replaced
    · rw [if_neg haction]
      simp only [List.map_append, List.map_cons, List.map_nil, List.nodup_append, List.nodup_singleton,
        List.mem_singleton, List.mem_map, true_and]
      refine ⟨hw.replaced, ?_⟩
      -- the version this commit replaces was active until now
      rintro _ ⟨c, hc, rfl⟩ _ rfl hsame
      rw [h.action] at haction
      obtain ⟨current, _, hcurrent, hactive, _, _⟩ := h.replaced (kind_ne_create haction)
      obtain ⟨row, hrow, hstate⟩ := hw.retired c hc
      rw [hsame] at hrow
      obtain rfl := Option.some.inj (hcurrent.symm.trans hrow)
      exact hstate hactive

theorem initial (generationID : Bytes) : (World.initial generationID).Recorded := by
  constructor
  all_goals simp [World.initial, World.replaces, DB.created]

theorem step (hw : w.Recorded) {w' : World} (h : w.Step w') : w'.Recorded := by
  have hfollows := h.follows
  cases h with
  | reserve _ _ hreserve | rewrapReserve _ _ hreserve | reserveLost hreserve =>
      refine hw.of_follows rfl hfollows ?_ ?_
      all_goals
        obtain ⟨_, _, _, _, rfl⟩ := reserveWrapInvocation_eq_ok hreserve
        intros
        assumption
  | commit _ hcommit => exact hw.commit (commit_committed hcommit)
  | rewrapStore _ hstore =>
      refine hw.of_follows rfl hfollows ?_ ?_
      all_goals
        obtain ⟨_, _, _, _, _, _, _, rfl⟩ := Secret.rewrap_eq_ok hstore
        intros
        assumption
  | initLedger hinit =>
      refine hw.of_follows rfl hfollows ?_ ?_
      all_goals
        obtain ⟨_, _, _, rfl⟩ := initializeActiveLedger_eq_ok hinit
        intros
        assumption
  | audit haudit =>
      obtain ⟨haction, hnone, _, _, rfl⟩ := appendMaterializationAudit_eq_ok haudit
      refine hw.of_follows rfl hfollows ?_ ?_
      · intro id row hrow
        exact Table.get?_put_of_fresh hnone hrow
      · intro id row hrow hother
        obtain ⟨_, rfl⟩ | hrow := Table.get?_put_cases hrow
        · exact absurd haction hother
        · exact hrow
  | begin | encrypt | list | rewrapSeal | abandon | restart =>
      exact hw.of_follows rfl hfollows (fun _ _ h => h) (fun _ _ h _ => h)

theorem of_reachable (h : secretSystem.Reachable w) : w.Recorded := by
  refine Reachable.step_invariant initial ?_ h
  intro w w' hw hstep
  exact hw.step hstep

-- The audit row of a commit, and the only one.
theorem audit_unique (hw : w.Recorded) {c : Commit} (hc : c ∈ w.commits) :
    ∃! id, ∃ row, w.db.audits.get? id = some row ∧ row.audit.action ≠ .materialized ∧
      row.audit.versionID = c.mutation.version.id := by
  obtain ⟨haction, hversion⟩ := hw.actions c hc
  obtain ⟨row, hrow, hsame⟩ := hw.audited c hc
  refine ⟨c.mutation.audit.id, ⟨row, hrow, ?_, ?_⟩, ?_⟩
  · rw [hsame]
    exact haction
  · rw [hsame]
    exact hversion
  · rintro id ⟨row', hrow', haction', hversion'⟩
    obtain ⟨hid, c', hc', hsame'⟩ := hw.audits id row' hrow' haction'
    rw [← hsame', (hw.actions c' hc').2] at hversion'
    obtain rfl := List.inj_on_of_nodup_map hw.ids hc' hc hversion'
    rw [← hid, hsame']

end World.Recorded

-- The versions of a secret form one history. In every reachable state each head has one active version, which it names,
-- and numbers from one to the last; no retired version comes back and no revoked one changes; a version is replaced by
-- one commit at most; each commit has one audit row; and a version that is not revoked decrypts to what its commit gave.
theorem secret_versions_one_history {w : World} (hw : secretSystem.Reachable w) :
    (∀ secretID head, w.db.heads.get? secretID = some head → ∃ id row, head.currentVersionID = some id ∧
      w.db.versions.get? id = some row ∧ row.secretID = secretID ∧ row.state = .active ∧
      ∀ id' row', w.db.versions.get? id' = some row' → row'.secretID = secretID → row'.state = .active → id' = id) ∧
    (∀ secretID head, w.db.heads.get? secretID = some head → ∃ n, 1 ≤ n ∧
      (∀ id row, w.db.versions.get? id = some row → row.secretID = secretID → 1 ≤ row.number ∧ row.number ≤ n) ∧
      ∀ k, 1 ≤ k → k ≤ n → ∃! id, ∃ row, w.db.versions.get? id = some row ∧ row.secretID = secretID ∧ row.number = k) ∧
    (∀ id row, w.db.versions.get? id = some row → ∃ head, w.db.heads.get? row.secretID = some head) ∧
    (∀ w', secretSystem.Run w w' → ∀ id row, w.db.versions.get? id = some row →
      ∃ row', w'.db.versions.get? id = some row' ∧ (row.state ≠ .active → row'.state ≠ .active) ∧
        (row.state = .revoked → row' = row)) ∧
    (w.replaces.map fun c => c.mutation.audit.oldVersionID).Nodup ∧
    (∀ c ∈ w.commits, ∃! id, ∃ row, w.db.audits.get? id = some row ∧ row.audit.action ≠ .materialized ∧
      row.audit.versionID = c.mutation.version.id) ∧
    ∀ id row head, w.db.versions.get? id = some row → w.db.heads.get? row.secretID = some head →
      ∃! c, c ∈ w.commits ∧ c.mutation.version.id = id ∧ (row.state ≠ .revoked → ∀ provider,
        KeyAvailable w.vault.cipher provider row.envelope →
          decrypt w.vault.cipher provider (cryptoScope (row.version id head).scope id) row.envelope = .ok c.plaintext) := by
  have hintact := World.Intact.of_reachable hw
  have hrecorded := World.Recorded.of_reachable hw
  have hdb := hintact.consistent
  refine ⟨?_, ?_, hdb.owned, ?_, hrecorded.replaced, ?_, ?_⟩
  · intro secretID head hhead
    obtain ⟨id, row, hcurrent, hrow, hsecret, hactive⟩ := hdb.current secretID head hhead
    refine ⟨id, row, hcurrent, hrow, hsecret, hactive, ?_⟩
    intro id' row' hrow' hsecret' hactive'
    obtain ⟨head', hhead', hcurrent'⟩ := hdb.active id' row' hrow' hactive'
    rw [hsecret', hhead] at hhead'
    obtain rfl := Option.some.inj hhead'
    exact Option.some.inj (hcurrent'.symm.trans hcurrent)
  · intro secretID head hhead
    obtain ⟨id, row, hcurrent, hrow, hsecret, _⟩ := hdb.current secretID head hhead
    have hbounded := hdb.bounded secretID head id row hhead hcurrent hrow
    refine ⟨row.number, (hbounded id row hrow hsecret).1, hbounded, ?_⟩
    intro k hk hk'
    obtain ⟨id', row', hrow', hsecret', hnumber'⟩ := hdb.complete secretID head id row hhead hcurrent hrow k hk hk'
    refine ⟨id', ⟨row', hrow', hsecret', hnumber'⟩, ?_⟩
    rintro other ⟨row₂, hrow₂, hsecret₂, hnumber₂⟩
    exact hdb.unique other row₂ id' row' hrow₂ hrow' (hsecret₂.trans hsecret'.symm) (hnumber₂.trans hnumber'.symm)
  · intro w' hrun id row hrow
    obtain ⟨row', hrow', hfollows⟩ := (follows_run hrun).versions id row hrow
    refine ⟨row', hrow', ?_, hfollows.revoked⟩
    intro hstate
    rw [hfollows.retired hstate]
    exact hstate
  · intro c hc
    exact hrecorded.audit_unique hc
  · intro id row head hrow hhead
    obtain ⟨c, hc, hid, hcarries⟩ := hintact.stored id row head hrow hhead
    refine ⟨c, ⟨hc, hid, ?_⟩, ?_⟩
    · intro _ provider havailable
      exact hintact.sound.decrypt_carried hcarries havailable
    · rintro c' ⟨hc', hid', _⟩
      exact List.inj_on_of_nodup_map hrecorded.ids hc' hc (hid'.trans hid.symm)

-- The secret replaced after a first rewrap.
def sampleReplace : Request :=
  ⟨.replaceCompromised, sampleScope, Bytes.ofString "version-2", sampleOperation (Bytes.ofString "audit-2"),
    Bytes.ofString "hunter2"⟩

def replaceDraw : Draw := ⟨List.replicate 32 7, List.replicate 35 8, List.replicate 60 9⟩

def replaceEvents : List Event :=
  sampleEvents ++ [.begin sampleReplace, .reserve 1 (sampleRing firstID).provider, .list (Bytes.ofString "version-1"),
    .initLedger secondID sampleGeneration, .rewrapReserve 2 (sampleRing secondID).provider, .encrypt 1 replaceDraw,
    .rewrapSeal 2 sampleWrapped, .rewrapStore 2, .commit 1]

theorem secret_versions_one_history_replaced :
    ∃ w, secretSystem.Reachable w ∧ w.commits.length = 2 ∧ ∃ head row,
      w.db.heads.get? (Bytes.ofString "token") = some head ∧
      head.currentVersionID = some (Bytes.ofString "version-2") ∧
      w.db.versions.get? (Bytes.ofString "version-2") = some row ∧ row.state = .active := by
  have hrun : ((World.initial sampleGeneration).run replaceEvents).any (fun w => w.commits.length == 2 &&
      (w.db.heads.get? (Bytes.ofString "token")).any
        (fun head => head.currentVersionID == some (Bytes.ofString "version-2"))) = true := by decide +kernel
  obtain ⟨w, hw, hsample⟩ := World.exists_of_events hrun
  simp only [Bool.and_eq_true, beq_iff_eq, Option.any_eq_true] at hsample
  obtain ⟨hlength, head, hhead, hcurrent⟩ := hsample
  obtain ⟨id, row, hid, hrow, _, hactive, _⟩ := (secret_versions_one_history hw).1 _ head hhead
  obtain rfl := Option.some.inj (hcurrent.symm.trans hid)
  exact ⟨w, hw, hlength, head, row, hhead, hcurrent, hrow, hactive⟩

end AutoDeploy.Secret
