import AutoDeploy.Secret.Effects

namespace AutoDeploy.Secret

open Lib Lib.Result Crypto

-- The heads and the versions fit together: one active version for each head, which the head names, and numbers from
-- one on without a gap.
structure DB.Consistent (db : DB) : Prop where
  current : ∀ secretID head, db.heads.get? secretID = some head →
    ∃ id row, head.currentVersionID = some id ∧ db.versions.get? id = some row ∧ row.secretID = secretID ∧
      row.state = .active
  active : ∀ id row, db.versions.get? id = some row → row.state = .active →
    ∃ head, db.heads.get? row.secretID = some head ∧ head.currentVersionID = some id
  owned : ∀ id row, db.versions.get? id = some row → ∃ head, db.heads.get? row.secretID = some head
  bounded : ∀ secretID head id row, db.heads.get? secretID = some head → head.currentVersionID = some id →
    db.versions.get? id = some row → ∀ other row', db.versions.get? other = some row' → row'.secretID = secretID →
      1 ≤ row'.number ∧ row'.number ≤ row.number
  complete : ∀ secretID head id row, db.heads.get? secretID = some head → head.currentVersionID = some id →
    db.versions.get? id = some row → ∀ k, 1 ≤ k → k ≤ row.number →
      ∃ other row', db.versions.get? other = some row' ∧ row'.secretID = secretID ∧ row'.number = k
  unique : ∀ id row id' row', db.versions.get? id = some row → db.versions.get? id' = some row' →
    row.secretID = row'.secretID → row.number = row'.number → id = id'

namespace DB.Consistent

variable {db db' : DB}

theorem created (generationID : Bytes) : (DB.created generationID).Consistent := by
  constructor
  all_goals
    intros
    simp_all [DB.created]

-- Writes elsewhere do not matter.
theorem of_eq (h : db.Consistent) (hheads : db'.heads = db.heads) (hversions : db'.versions = db.versions) :
    db'.Consistent := by
  obtain ⟨h₁, h₂, h₃, h₄, h₅, h₆⟩ := h
  constructor
  all_goals
    rw [hversions]
    try rw [hheads]
    assumption

-- A row whose secret, number and state stay may change in its other columns.
theorem put_row (h : db.Consistent) {id : Bytes} {old new : VersionRow} (hold : db.versions.get? id = some old)
    (hsecret : new.secretID = old.secretID) (hnumber : new.number = old.number) (hstate : new.state = old.state) :
    DB.Consistent { db with versions := db.versions.put id new } := by
  -- each row has one before it with the same secret, number and state, and the other way round
  have hback {x : Bytes} {row : VersionRow} (hrow : (db.versions.put id new).get? x = some row) :
      ∃ row₀, db.versions.get? x = some row₀ ∧ row.secretID = row₀.secretID ∧ row.number = row₀.number ∧
        row.state = row₀.state := by
    obtain ⟨rfl, rfl⟩ | hrow := Table.get?_put_cases hrow
    · exact ⟨old, hold, hsecret, hnumber, hstate⟩
    · exact ⟨row, hrow, rfl, rfl, rfl⟩
  have hforth {x : Bytes} {row₀ : VersionRow} (hrow : db.versions.get? x = some row₀) :
      ∃ row, (db.versions.put id new).get? x = some row ∧ row.secretID = row₀.secretID ∧ row.number = row₀.number ∧
        row.state = row₀.state := by
    rw [Table.get?_put]
    by_cases hx : x = id
    · subst hx
      obtain rfl := Option.some.inj (hold.symm.trans hrow)
      exact ⟨new, if_pos rfl, hsecret, hnumber, hstate⟩
    · exact ⟨row₀, by rw [if_neg hx, hrow], rfl, rfl, rfl⟩
  constructor
  case current =>
    intro secretID head hhead
    obtain ⟨x, row₀, hcurrent, hrow₀, hsecret₀, hstate₀⟩ := h.current secretID head hhead
    obtain ⟨row, hrow, hs, _, hst⟩ := hforth hrow₀
    exact ⟨x, row, hcurrent, hrow, hs.trans hsecret₀, hst.trans hstate₀⟩
  case active =>
    intro x row hrow hactive
    obtain ⟨row₀, hrow₀, hs, _, hst⟩ := hback hrow
    rw [hs]
    exact h.active x row₀ hrow₀ (hst.symm.trans hactive)
  case owned =>
    intro x row hrow
    obtain ⟨row₀, hrow₀, hs, _, _⟩ := hback hrow
    rw [hs]
    exact h.owned x row₀ hrow₀
  case bounded =>
    intro secretID head x row hhead hcurrent hrow other row' hrow' hsecret'
    obtain ⟨row₀, hrow₀, _, hn, _⟩ := hback hrow
    obtain ⟨row₁, hrow₁, hs₁, hn₁, _⟩ := hback hrow'
    rw [hn, hn₁]
    exact h.bounded secretID head x row₀ hhead hcurrent hrow₀ other row₁ hrow₁ (hs₁.symm.trans hsecret')
  case complete =>
    intro secretID head x row hhead hcurrent hrow k hk hk'
    obtain ⟨row₀, hrow₀, _, hn, _⟩ := hback hrow
    rw [hn] at hk'
    obtain ⟨other, row₁, hrow₁, hs₁, hn₁⟩ := h.complete secretID head x row₀ hhead hcurrent hrow₀ k hk hk'
    obtain ⟨row', hrow', hs', hn', _⟩ := hforth hrow₁
    exact ⟨other, row', hrow', hs'.trans hs₁, hn'.trans hn₁⟩
  case unique =>
    intro x row x' row' hrow hrow' hs hn
    obtain ⟨row₀, hrow₀, hs₀, hn₀, _⟩ := hback hrow
    obtain ⟨row₁, hrow₁, hs₁, hn₁, _⟩ := hback hrow'
    exact h.unique x row₀ x' row₁ hrow₀ hrow₁ (hs₀.symm.trans (hs.trans hs₁)) (hn₀.symm.trans (hn.trans hn₁))

theorem create (h : db.Consistent) {m : Mutation} (hcreate : Secret.create db m = .ok db') : db'.Consistent := by
  obtain ⟨_, _, _, hnumber, hstate, _, hnohead, hnoversion, _, _, head, _, _, _, hlinked, _, rfl⟩ := create_eq_ok hcreate
  have hnew {x : Bytes} {row : VersionRow} (hrow : db.versions.get? x = some row) :
      row.secretID ≠ m.version.scope.secretID := by
    intro hsame
    obtain ⟨other, hother⟩ := h.owned x row hrow
    rw [hsame, hnohead] at hother
    cases hother
  have hself : (db.versions.put m.version.id m.version.row).get? m.version.id = some m.version.row :=
    Table.get?_put_self _ _ _
  have hkeep {x : Bytes} {row : VersionRow} (hrow : db.versions.get? x = some row) :
      (db.versions.put m.version.id m.version.row).get? x = some row := Table.get?_put_of_fresh hnoversion hrow
  -- an older head is still there, and it is not the new one
  have hheads {s : Bytes} {other : Head} (hs : (db.heads.put m.version.scope.secretID head).get? s = some other) :
      (s = m.version.scope.secretID ∧ other = head) ∨ (s ≠ m.version.scope.secretID ∧ db.heads.get? s = some other) := by
    obtain ⟨rfl, rfl⟩ | hold := Table.get?_put_cases hs
    · exact .inl ⟨rfl, rfl⟩
    · refine .inr ⟨?_, hold⟩
      rintro rfl
      rw [hnohead] at hold
      cases hold
  have hheadKept {s : Bytes} {other : Head} (hs : db.heads.get? s = some other) :
      (db.heads.put m.version.scope.secretID head).get? s = some other := Table.get?_put_of_fresh hnohead hs
  constructor
  case current =>
    intro s other hs
    obtain ⟨rfl, rfl⟩ | ⟨_, hold⟩ := hheads hs
    · exact ⟨m.version.id, m.version.row, hlinked, hself, rfl, hstate⟩
    · obtain ⟨id, row, hcurrent, hrow, hrest⟩ := h.current s other hold
      exact ⟨id, row, hcurrent, hkeep hrow, hrest⟩
  case active =>
    intro x row hrow hactive
    obtain ⟨rfl, rfl⟩ | hrow := Table.get?_put_cases hrow
    · exact ⟨head, Table.get?_put_self _ _ _, hlinked⟩
    · obtain ⟨other, hother, hcurrent⟩ := h.active x row hrow hactive
      exact ⟨other, hheadKept hother, hcurrent⟩
  case owned =>
    intro x row hrow
    obtain ⟨rfl, rfl⟩ | hrow := Table.get?_put_cases hrow
    · exact ⟨head, Table.get?_put_self _ _ _⟩
    · obtain ⟨other, hother⟩ := h.owned x row hrow
      exact ⟨other, hheadKept hother⟩
  case bounded =>
    intro s other x row hs hcurrent hrow y row' hrow' hsecret'
    obtain ⟨rfl, rfl⟩ | ⟨hne, hold⟩ := hheads hs
    · obtain rfl := Option.some.inj (hlinked.symm.trans hcurrent)
      obtain rfl := Option.some.inj (hself.symm.trans hrow)
      obtain ⟨_, rfl⟩ | hrow' := Table.get?_put_cases hrow'
      · exact ⟨hnumber.symm.le, le_refl _⟩
      · exact absurd hsecret' (hnew hrow')
    · obtain ⟨_, rfl⟩ | hrow' := Table.get?_put_cases hrow'
      · exact absurd hsecret'.symm hne
      · obtain ⟨rfl, rfl⟩ | hrow := Table.get?_put_cases hrow
        · obtain ⟨id, row₀, hc, hrow₀, _⟩ := h.current s other hold
          obtain rfl := Option.some.inj (hcurrent.symm.trans hc)
          rw [hnoversion] at hrow₀
          cases hrow₀
        · exact h.bounded s other x row hold hcurrent hrow y row' hrow' hsecret'
  case complete =>
    intro s other x row hs hcurrent hrow k hk hk'
    obtain ⟨rfl, rfl⟩ | ⟨hne, hold⟩ := hheads hs
    · obtain rfl := Option.some.inj (hlinked.symm.trans hcurrent)
      obtain rfl := Option.some.inj (hself.symm.trans hrow)
      have hone : k = m.version.row.number := le_antisymm hk' (hnumber.le.trans hk)
      exact ⟨_, _, hself, rfl, hone.symm⟩
    · obtain ⟨id, row₀, hc, hrow₀, _⟩ := h.current s other hold
      obtain rfl := Option.some.inj (hcurrent.symm.trans hc)
      obtain rfl := Option.some.inj ((hkeep hrow₀).symm.trans hrow)
      obtain ⟨y, row', hrow', hs', hn'⟩ := h.complete s other x row₀ hold hcurrent hrow₀ k hk hk'
      exact ⟨y, row', hkeep hrow', hs', hn'⟩
  case unique =>
    intro x row x' row' hrow hrow' hs hn
    obtain ⟨rfl, rfl⟩ | hrow := Table.get?_put_cases hrow
    · obtain ⟨rfl, _⟩ | hrow' := Table.get?_put_cases hrow'
      · rfl
      · exact absurd hs.symm (hnew hrow')
    · obtain ⟨rfl, rfl⟩ | hrow' := Table.get?_put_cases hrow'
      · exact absurd hs (hnew hrow)
      · exact h.unique x row x' row' hrow hrow' hs hn

theorem replacedState_ne_active (compromised : Bool) : replacedState compromised ≠ .active := by
  cases compromised <;> decide

theorem replace (h : db.Consistent) {m : Mutation} {compromised : Bool}
    (hreplace : Secret.replace db m compromised = .ok db') : db'.Consistent := by
  obtain ⟨_, _, _, hstate, _, head, currentID, current, _, _, hhead, _, hcurrentID, hcurrent, hsecret, _, hnumber, _,
    hnoversion, _, _, rfl⟩ := replace_eq_ok hreplace
  have hfresh : m.version.id ≠ currentID := by
    intro hsame
    rw [hsame, hcurrent] at hnoversion
    cases hnoversion
  -- the versions after: the new one, the retired one, and those that stayed
  have hself : ((db.versions.put currentID { current with state := replacedState compromised }).put m.version.id
      m.version.row).get? m.version.id = some m.version.row := Table.get?_put_self _ _ _
  have hforth {x : Bytes} {row₀ : VersionRow} (hrow : db.versions.get? x = some row₀) :
      ∃ row, ((db.versions.put currentID { current with state := replacedState compromised }).put m.version.id
        m.version.row).get? x = some row ∧ row.secretID = row₀.secretID ∧ row.number = row₀.number ∧
          (x ≠ currentID → row = row₀) := by
    have hx : x ≠ m.version.id := by
      rintro rfl
      rw [hnoversion] at hrow
      cases hrow
    rw [Table.get?_put, if_neg hx, Table.get?_put]
    by_cases hc : x = currentID
    · subst hc
      obtain rfl := Option.some.inj (hcurrent.symm.trans hrow)
      exact ⟨_, if_pos rfl, rfl, rfl, fun hne => absurd rfl hne⟩
    · exact ⟨row₀, by rw [if_neg hc, hrow], rfl, rfl, fun _ => rfl⟩
  have hback {x : Bytes} {row : VersionRow}
      (hrow : ((db.versions.put currentID { current with state := replacedState compromised }).put m.version.id
        m.version.row).get? x = some row) :
      (x = m.version.id ∧ row = m.version.row) ∨
        ∃ row₀, db.versions.get? x = some row₀ ∧ row.secretID = row₀.secretID ∧ row.number = row₀.number ∧
          (row.state = .active → x ≠ currentID ∧ row = row₀) := by
    obtain hnew | hrow := Table.get?_put_cases hrow
    · exact .inl hnew
    · by_cases hc : x = currentID
      · subst hc
        rw [Table.get?_put_self] at hrow
        obtain rfl := Option.some.inj hrow
        exact .inr ⟨current, hcurrent, rfl, rfl, fun hactive => absurd hactive (replacedState_ne_active compromised)⟩
      · rw [Table.get?_put, if_neg hc] at hrow
        exact .inr ⟨row, hrow, rfl, rfl, fun _ => ⟨hc, rfl⟩⟩
  have hlast {x : Bytes} {row : VersionRow} (hrow : db.versions.get? x = some row)
      (hs : row.secretID = m.version.scope.secretID) : 1 ≤ row.number ∧ row.number ≤ current.number :=
    h.bounded _ head currentID current hhead hcurrentID hcurrent x row hrow hs
  have hheads {s : Bytes} {other : Head} (hs : (db.heads.put m.version.scope.secretID { head with
      currentVersionID := some m.version.id, revision := head.revision + 1 }).get? s = some other) :
      (s = m.version.scope.secretID ∧ other.currentVersionID = some m.version.id) ∨
        (s ≠ m.version.scope.secretID ∧ db.heads.get? s = some other) := by
    by_cases hsame : s = m.version.scope.secretID
    · subst hsame
      rw [Table.get?_put_self] at hs
      obtain rfl := Option.some.inj hs
      exact .inl ⟨rfl, rfl⟩
    · rw [Table.get?_put, if_neg hsame] at hs
      exact .inr ⟨hsame, hs⟩
  -- another head's current version is not the one replaced
  have hother {s x : Bytes} {other : Head} (hne : s ≠ m.version.scope.secretID) (hs : db.heads.get? s = some other)
      (hx : other.currentVersionID = some x) : x ≠ currentID := by
    rintro rfl
    obtain ⟨id, row, hid, hrow, hs', _⟩ := h.current s other hs
    obtain rfl := Option.some.inj (hx.symm.trans hid)
    obtain rfl := Option.some.inj (hcurrent.symm.trans hrow)
    exact hne (hs'.symm.trans hsecret)
  constructor
  case current =>
    intro s other hs
    obtain ⟨rfl, hnew⟩ | ⟨hne, hold⟩ := hheads hs
    · exact ⟨m.version.id, m.version.row, hnew, hself, rfl, hstate⟩
    · obtain ⟨id, row₀, hid, hrow₀, hs₀, hactive₀⟩ := h.current s other hold
      obtain ⟨row, hrow, hs', _, hkept⟩ := hforth hrow₀
      obtain rfl := hkept (hother hne hold hid)
      exact ⟨id, row, hid, hrow, hs₀, hactive₀⟩
  case active =>
    intro x row hrow hactive
    obtain ⟨rfl, rfl⟩ | ⟨row₀, hrow₀, hs₀, _, hkept⟩ := hback hrow
    · exact ⟨_, Table.get?_put_self _ _ _, rfl⟩
    · obtain ⟨hne, rfl⟩ := hkept hactive
      obtain ⟨other, hhead', hcurrent'⟩ := h.active x row hrow₀ hactive
      have hsecret' : row.secretID ≠ m.version.scope.secretID := by
        intro hsame
        rw [hsame, hhead] at hhead'
        obtain rfl := Option.some.inj hhead'
        exact hne (Option.some.inj (hcurrent'.symm.trans hcurrentID))
      refine ⟨other, ?_, hcurrent'⟩
      rw [Table.get?_put, if_neg hsecret', hhead']
  case owned =>
    intro x row hrow
    by_cases hsame : row.secretID = m.version.scope.secretID
    · rw [hsame]
      exact ⟨_, Table.get?_put_self _ _ _⟩
    · obtain ⟨_, rfl⟩ | ⟨row₀, hrow₀, hs₀, _, _⟩ := hback hrow
      · exact absurd rfl hsame
      · obtain ⟨other, hhead'⟩ := h.owned x row₀ hrow₀
        refine ⟨other, ?_⟩
        rw [Table.get?_put, if_neg hsame, hs₀, hhead']
  case bounded =>
    intro s other x row hs hx hrow y row' hrow' hsecret'
    obtain ⟨rfl, hnew⟩ | ⟨hne, hold⟩ := hheads hs
    · obtain rfl := Option.some.inj (hnew.symm.trans hx)
      obtain rfl := Option.some.inj (hself.symm.trans hrow)
      have hrowNumber : m.version.row.number = current.number + 1 := hnumber
      obtain ⟨_, rfl⟩ | ⟨row₀, hrow₀, hs₀, hn₀, _⟩ := hback hrow'
      · omega
      · have hless := hlast hrow₀ (hs₀.symm.trans hsecret')
        omega
    · obtain ⟨id, row₁, hid, hrow₁, _⟩ := h.current s other hold
      obtain rfl := Option.some.inj (hx.symm.trans hid)
      obtain ⟨row₂, hrow₂, _, hn₂, _⟩ := hforth hrow₁
      obtain rfl := Option.some.inj (hrow₂.symm.trans hrow)
      obtain ⟨_, rfl⟩ | ⟨row₀, hrow₀, hs₀, hn₀, _⟩ := hback hrow'
      · exact absurd hsecret'.symm hne
      · rw [hn₀, hn₂]
        exact h.bounded s other x row₁ hold hx hrow₁ y row₀ hrow₀ (hs₀.symm.trans hsecret')
  case complete =>
    intro s other x row hs hx hrow k hk hk'
    obtain ⟨rfl, hnew⟩ | ⟨hne, hold⟩ := hheads hs
    · obtain rfl := Option.some.inj (hnew.symm.trans hx)
      obtain rfl := Option.some.inj (hself.symm.trans hrow)
      have hrowNumber : m.version.row.number = current.number + 1 := hnumber
      by_cases htop : k = current.number + 1
      · exact ⟨_, _, hself, rfl, hrowNumber.trans htop.symm⟩
      · obtain ⟨y, row₀, hrow₀, hs₀, hn₀⟩ :=
          h.complete _ head currentID current hhead hcurrentID hcurrent k hk (by omega)
        obtain ⟨row', hrow', hs', hn', _⟩ := hforth hrow₀
        exact ⟨y, row', hrow', hs'.trans hs₀, hn'.trans hn₀⟩
    · obtain ⟨id, row₁, hid, hrow₁, _⟩ := h.current s other hold
      obtain rfl := Option.some.inj (hx.symm.trans hid)
      obtain ⟨row₂, hrow₂, _, hn₂, _⟩ := hforth hrow₁
      obtain rfl := Option.some.inj (hrow₂.symm.trans hrow)
      rw [hn₂] at hk'
      obtain ⟨y, row₀, hrow₀, hs₀, hn₀⟩ := h.complete s other x row₁ hold hx hrow₁ k hk hk'
      obtain ⟨row', hrow', hs', hn', _⟩ := hforth hrow₀
      exact ⟨y, row', hrow', hs'.trans hs₀, hn'.trans hn₀⟩
  case unique =>
    intro x row x' row' hrow hrow' hs hn
    have hrowNumber : m.version.row.number = current.number + 1 := hnumber
    obtain ⟨rfl, rfl⟩ | ⟨row₀, hrow₀, hs₀, hn₀, _⟩ := hback hrow
    · obtain ⟨rfl, _⟩ | ⟨row₁, hrow₁, hs₁, hn₁, _⟩ := hback hrow'
      · rfl
      · have hless := hlast hrow₁ (hs₁.symm.trans hs.symm)
        omega
    · obtain ⟨rfl, rfl⟩ | ⟨row₁, hrow₁, hs₁, hn₁, _⟩ := hback hrow'
      · have hless := hlast hrow₀ (hs₀.symm.trans hs)
        omega
      · exact h.unique x row₀ x' row₁ hrow₀ hrow₁ (hs₀.symm.trans (hs.trans hs₁)) (hn₀.symm.trans (hn.trans hn₁))

end DB.Consistent

-- How a stored version may change: its state moves on once, its data key is rewrapped, and when it is revoked nothing
-- changes any more.
structure VersionRow.Follows (row row' : VersionRow) : Prop where
  secretID : row'.secretID = row.secretID
  ownerID : row'.ownerID = row.ownerID
  projectID : row'.projectID = row.projectID
  environmentID : row'.environmentID = row.environmentID
  number : row'.number = row.number
  ciphertext : row'.envelope.ciphertext = row.envelope.ciphertext
  retired : row.state ≠ .active → row'.state = row.state
  revoked : row.state = .revoked → row' = row

theorem VersionRow.Follows.refl (row : VersionRow) : row.Follows row := by
  constructor
  all_goals
    intros
    rfl

theorem VersionRow.Follows.trans {row₁ row₂ row₃ : VersionRow} (h₁ : row₁.Follows row₂) (h₂ : row₂.Follows row₃) :
    row₁.Follows row₃ where
  secretID := h₂.secretID.trans h₁.secretID
  ownerID := h₂.ownerID.trans h₁.ownerID
  projectID := h₂.projectID.trans h₁.projectID
  environmentID := h₂.environmentID.trans h₁.environmentID
  number := h₂.number.trans h₁.number
  ciphertext := h₂.ciphertext.trans h₁.ciphertext
  retired hstate := by
    have hsame := h₁.retired hstate
    rw [← hsame] at hstate
    exact (h₂.retired hstate).trans hsame
  revoked hstate := by
    obtain rfl := h₁.revoked hstate
    exact h₂.revoked hstate

-- No version and no head ever goes away, and a head keeps its scope.
structure DB.Follows (db db' : DB) : Prop where
  versions : ∀ id row, db.versions.get? id = some row → ∃ row', db'.versions.get? id = some row' ∧ row.Follows row'
  heads : ∀ secretID head, db.heads.get? secretID = some head → ∃ head', db'.heads.get? secretID = some head' ∧
    head'.purpose = head.purpose ∧ head'.deliveryScope = head.deliveryScope

theorem DB.Follows.of_eq {db db' : DB} (hheads : db'.heads = db.heads) (hversions : db'.versions = db.versions) :
    db.Follows db' := by
  constructor
  · intro id row hrow
    rw [hversions]
    exact ⟨row, hrow, .refl row⟩
  · intro secretID head hhead
    rw [hheads]
    exact ⟨head, hhead, rfl, rfl⟩

theorem DB.Follows.trans {db₁ db₂ db₃ : DB} (h₁ : db₁.Follows db₂) (h₂ : db₂.Follows db₃) : db₁.Follows db₃ := by
  constructor
  · intro id row hrow
    obtain ⟨row₂, hrow₂, hfollows₂⟩ := h₁.versions id row hrow
    obtain ⟨row₃, hrow₃, hfollows₃⟩ := h₂.versions id row₂ hrow₂
    exact ⟨row₃, hrow₃, hfollows₂.trans hfollows₃⟩
  · intro secretID head hhead
    obtain ⟨head₂, hhead₂, hpurpose₂, hdelivery₂⟩ := h₁.heads secretID head hhead
    obtain ⟨head₃, hhead₃, hpurpose₃, hdelivery₃⟩ := h₂.heads secretID head₂ hhead₂
    exact ⟨head₃, hhead₃, hpurpose₃.trans hpurpose₂, hdelivery₃.trans hdelivery₂⟩

-- What a committed mutation leaves behind.
structure Committed (kind : Kind) (db : DB) (m : Mutation) (db' : DB) : Prop where
  versionID : m.audit.versionID = m.version.id
  action : m.audit.action = kind.action
  fresh : db.versions.get? m.version.id = none
  stored : db'.versions.get? m.version.id = some m.version.row
  others : ∀ id row, db'.versions.get? id = some row → id = m.version.id ∨ ∃ old, db.versions.get? id = some old ∧
    row.envelope = old.envelope
  head : ∃ head, db'.heads.get? m.version.scope.secretID = some head ∧ head.inScope m.version.scope = true
  audit_fresh : db.audits.get? m.audit.id = none
  audited : ∃ projectID environmentID, db'.audits = db.audits.put m.audit.id ⟨m.audit, projectID, environmentID⟩
  follows : db.Follows db'
  consistent : db.Consistent → db'.Consistent
  replaced : kind ≠ .create → ∃ current retired, db.versions.get? m.audit.oldVersionID = some current ∧
    current.state = .active ∧ db'.versions.get? m.audit.oldVersionID = some retired ∧ retired.state ≠ .active

section

variable {db db' : DB} {m : Mutation}

theorem create_committed (h : create db m = .ok db') : Committed .create db m db' := by
  obtain ⟨hid, _, _, _, _, haction, hnohead, hnoversion, hnoaudit, _, head, projectID, environmentID, hscope, _, _, hdb⟩ :=
    create_eq_ok h
  have hconsistent : db.Consistent → db'.Consistent := fun hdb => hdb.create h
  subst hdb
  constructor
  case versionID => exact hid
  case action => exact haction
  case fresh => exact hnoversion
  case stored => exact Table.get?_put_self _ _ _
  case others =>
    intro id row hrow
    obtain ⟨rfl, _⟩ | hrow := Table.get?_put_cases hrow
    · exact .inl rfl
    · exact .inr ⟨row, hrow, rfl⟩
  case head => exact ⟨head, Table.get?_put_self _ _ _, hscope⟩
  case audit_fresh => exact hnoaudit
  case audited => exact ⟨projectID, environmentID, rfl⟩
  case follows =>
    constructor
    · intro id row hrow
      exact ⟨row, Table.get?_put_of_fresh hnoversion hrow, .refl row⟩
    · intro secretID other hother
      exact ⟨other, Table.get?_put_of_fresh hnohead hother, rfl, rfl⟩
  case consistent => exact hconsistent
  case replaced => exact fun hne => absurd rfl hne

theorem replace_committed {kind : Kind} {compromised : Bool}
    (haction' : kind.action = if compromised then .replacedCompromised else .replaced)
    (h : replace db m compromised = .ok db') : Committed kind db m db' := by
  obtain ⟨hid, _, _, _, haction, head, currentID, current, projectID, environmentID, hhead, hscope, hcurrentID, hcurrent,
    hsecret, hactive, _, hold, hnoversion, hnoaudit, _, hdb⟩ := replace_eq_ok h
  have hconsistent : db.Consistent → db'.Consistent := fun hdb => hdb.replace h
  subst hdb
  have hfresh : m.version.id ≠ currentID := by
    intro hsame
    rw [hsame, hcurrent] at hnoversion
    cases hnoversion
  have hretired : ((db.versions.put currentID { current with state := replacedState compromised }).put m.version.id
      m.version.row).get? currentID = some { current with state := replacedState compromised } := by
    rw [Table.get?_put, if_neg hfresh.symm, Table.get?_put_self]
  constructor
  case versionID => exact hid
  case action => exact haction.trans haction'.symm
  case fresh => exact hnoversion
  case stored => exact Table.get?_put_self _ _ _
  case others =>
    intro id row hrow
    obtain ⟨rfl, _⟩ | hrow := Table.get?_put_cases hrow
    · exact .inl rfl
    · obtain ⟨rfl, rfl⟩ | hrow := Table.get?_put_cases hrow
      · exact .inr ⟨current, hcurrent, rfl⟩
      · exact .inr ⟨row, hrow, rfl⟩
  case head => exact ⟨_, Table.get?_put_self _ _ _, hscope⟩
  case audit_fresh => exact hnoaudit
  case audited => exact ⟨projectID, environmentID, rfl⟩
  case follows =>
    constructor
    · intro id row hrow
      by_cases hc : id = currentID
      · subst hc
        obtain rfl := Option.some.inj (hcurrent.symm.trans hrow)
        refine ⟨_, hretired, rfl, rfl, rfl, rfl, rfl, rfl, ?_, ?_⟩
        · exact fun hne => absurd hactive hne
        · intro hrevoked
          rw [hactive] at hrevoked
          cases hrevoked
      · refine ⟨row, Table.get?_put_of_fresh ?_ ?_, .refl row⟩
        · rw [Table.get?_put, if_neg hfresh]
          exact hnoversion
        · rw [Table.get?_put, if_neg hc]
          exact hrow
    · intro secretID other hother
      by_cases hs : secretID = m.version.scope.secretID
      · subst hs
        obtain rfl := Option.some.inj (hhead.symm.trans hother)
        exact ⟨_, Table.get?_put_self _ _ _, rfl, rfl⟩
      · refine ⟨other, ?_, rfl, rfl⟩
        rw [Table.get?_put, if_neg hs]
        exact hother
  case consistent => exact hconsistent
  case replaced =>
    intro _
    rw [hold]
    exact ⟨current, _, hcurrent, hactive, hretired, DB.Consistent.replacedState_ne_active compromised⟩

theorem commit_committed {kind : Kind} (h : kind.commit db m = .ok db') : Committed kind db m db' := by
  cases kind with
  | create => exact create_committed h
  | replace => exact replace_committed rfl h
  | replaceCompromised => exact replace_committed rfl h

theorem rewrap_follows {scope : Scope} {versionID : Bytes} {expectedRevision : Nat} {envelope : Envelope}
    (h : rewrap db scope versionID expectedRevision envelope = .ok db') : db.Follows db' := by
  obtain ⟨_, _, row, hrow, _, hstate, _, rfl⟩ := rewrap_eq_ok h
  constructor
  · intro id row' hrow'
    by_cases hid : id = versionID
    · subst hid
      obtain rfl := Option.some.inj (hrow.symm.trans hrow')
      exact ⟨_, Table.get?_put_self _ _ _, rfl, rfl, rfl, rfl, rfl, rfl, fun _ => rfl, fun hrevoked => absurd hrevoked hstate⟩
    · refine ⟨row', ?_, .refl row'⟩
      rw [Table.get?_put, if_neg hid]
      exact hrow'
  · intro secretID head hhead
    exact ⟨head, hhead, rfl, rfl⟩

end

-- The tables of secrets along a step.
theorem World.Step.follows {w w' : World} (h : w.Step w') : w.db.Follows w'.db := by
  cases h with
  | reserve _ _ hreserve | rewrapReserve _ _ hreserve | reserveLost hreserve =>
      obtain ⟨_, _, _, _, rfl⟩ := reserveWrapInvocation_eq_ok hreserve
      exact .of_eq rfl rfl
  | commit _ hcommit => exact (commit_committed hcommit).follows
  | rewrapStore _ hstore => exact rewrap_follows hstore
  | initLedger hinit =>
      obtain ⟨_, _, _, rfl⟩ := initializeActiveLedger_eq_ok hinit
      exact .of_eq rfl rfl
  | audit haudit =>
      obtain ⟨_, _, _, _, rfl⟩ := appendMaterializationAudit_eq_ok haudit
      exact .of_eq rfl rfl
  | _ => exact .of_eq rfl rfl

theorem World.Step.consistent {w w' : World} (h : w.Step w') (hw : w.db.Consistent) : w'.db.Consistent := by
  cases h with
  | reserve _ _ hreserve | rewrapReserve _ _ hreserve | reserveLost hreserve =>
      obtain ⟨_, _, _, _, rfl⟩ := reserveWrapInvocation_eq_ok hreserve
      exact hw.of_eq rfl rfl
  | commit _ hcommit => exact (commit_committed hcommit).consistent hw
  | rewrapStore _ hstore =>
      obtain ⟨_, _, row, hrow, _, _, _, rfl⟩ := rewrap_eq_ok hstore
      exact hw.put_row hrow rfl rfl rfl
  | initLedger hinit =>
      obtain ⟨_, _, _, rfl⟩ := initializeActiveLedger_eq_ok hinit
      exact hw.of_eq rfl rfl
  | audit haudit =>
      obtain ⟨_, _, _, _, rfl⟩ := appendMaterializationAudit_eq_ok haudit
      exact hw.of_eq rfl rfl
  | _ => exact hw

theorem follows_run {w w' : World} (h : secretSystem.Run w w') : w.db.Follows w'.db := by
  induction h with
  | refl => exact .of_eq rfl rfl
  | tail _ hnext ih =>
      obtain ⟨e, hnext⟩ := hnext
      exact ih.trans (World.step_of_next hnext).follows

end AutoDeploy.Secret
