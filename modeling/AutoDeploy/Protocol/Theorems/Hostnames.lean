import AutoDeploy.Protocol.Statements
import AutoDeploy.Store.RouteHeads
import AutoDeploy.Traefik.Documents

namespace AutoDeploy.Protocol

open Lib Lib.Result Store Unicode Healthgate

-- A hostname as bytes. Lower-casing reads it character by character, so the assignment sees this text.
def hostnameText (hostname : Bytes) : String := String.ofList (text hostname)

-- The ASCII-lowercase form, byte by byte.
def canonicalHostname (hostname : Bytes) : String :=
  String.ofList (hostname.map fun b => asciiLower (byteChar b))

-- The hostname with the lookalikes of i and k read as these letters.
def disguisedHostname (hostname : Bytes) : String :=
  String.ofList ((text hostname).map fun c => asciiLower (plainLetter c))

structure FoldsAsciiOnly (hostname : Bytes) : Prop where
  passes : validRouteHostname (normalizeRouteHostname (hostnameText hostname)) = true ↔
    hostname.all asciiByte = true ∧ validRouteHostname (canonicalHostname hostname) = true
  stored : ∀ now db p environmentID expectedRevision db' head,
    assignRouteHostname now db p environmentID (hostnameText hostname) expectedRevision = (db', .ok head) →
      hostname.all asciiByte = true ∧ head.hostname = canonicalHostname hostname ∧
        db'.routeHeads.get? environmentID = some head

theorem isAscii_of_hostChar {c : Char} (h : Text.hostChar c = true) : isAscii c = true := by
  simp only [Text.hostChar, Text.isLower, Text.isDigit, Bool.or_eq_true, Bool.and_eq_true, decide_eq_true_eq,
    beq_iff_eq] at h
  have hle {c d : Char} (h : c ≤ d) (hd : isAscii d = true) : isAscii c = true := by
    have hnat : c.toNat ≤ d.toNat := h
    simp only [isAscii, decide_eq_true_eq] at hd ⊢
    omega
  rcases h with ((⟨-, h⟩ | ⟨-, h⟩) | rfl) | rfl
  · exact hle h rfl
  · exact hle h rfl
  · rfl
  · rfl

theorem asciiLower_plainLetter (c : Char) (h : isAscii c = true ∨ lookalike c = true) :
    toLower c = asciiLower (plainLetter c) := by
  rcases h with h | h
  · have hplain : plainLetter c = c := by
      rw [plainLetter, if_neg (by rintro rfl; cases h), if_neg (by rintro rfl; cases h)]
    rw [hplain, toLower_ascii h]
  · rw [toLower_lookalike h]
    rcases lookalike_iff.1 h with rfl | rfl
    · rfl
    · rfl

theorem isAscii_of_asciiLower {c : Char} (h : isAscii (asciiLower c) = true) : isAscii c = true := by
  unfold asciiLower at h
  split at h
  · rename_i hupper
    have hz : c.toNat ≤ 'Z'.toNat := hupper.2
    have hnat : 'Z'.toNat = 90 := rfl
    simp only [isAscii, decide_eq_true_eq]
    omega
  · exact h

theorem isAscii_or_lookalike {c : Char} (h : isAscii (asciiLower (plainLetter c)) = true) :
    isAscii c = true ∨ lookalike c = true := by
  by_cases hlook : lookalike c = true
  · exact .inr hlook
  · have hne : ¬ (c = '\u0130' ∨ c = '\u212a') := fun hc => hlook (lookalike_iff.2 hc)
    rw [plainLetter, if_neg fun hc => hne (.inl hc), if_neg fun hc => hne (.inr hc)] at h
    exact .inl (isAscii_of_asciiLower h)

theorem map_toLower_eq {cs : List Char} (h : ∀ c ∈ cs, isAscii c = true ∨ lookalike c = true) :
    cs.map toLower = cs.map fun c => asciiLower (plainLetter c) :=
  List.map_congr_left fun c hc => asciiLower_plainLetter c (h c hc)

theorem normalize_hostnameText (hostname : Bytes) :
    normalizeRouteHostname (hostnameText hostname) = String.ofList ((text hostname).map toLower) := by
  rw [normalizeRouteHostname, hostnameText, String.toList_ofList]

-- What the validation of the folded text accepts: the disguised form, when that one is a hostname.
theorem folded_valid_iff (hostname : Bytes) :
    validRouteHostname (normalizeRouteHostname (hostnameText hostname)) = true ↔
      validRouteHostname (disguisedHostname hostname) = true := by
  rw [normalize_hostnameText, disguisedHostname]
  constructor
  · intro h
    have hcs : ∀ c ∈ text hostname, isAscii c = true ∨ lookalike c = true := by
      intro c hc
      apply isAscii_toLower.1
      apply isAscii_of_hostChar
      apply validRouteHostname_chars h
      rw [String.toList_ofList]
      exact List.mem_map_of_mem hc
    rwa [← map_toLower_eq hcs]
  · intro h
    have hcs : ∀ c ∈ text hostname, isAscii c = true ∨ lookalike c = true := by
      intro c hc
      apply isAscii_or_lookalike
      apply isAscii_of_hostChar
      apply validRouteHostname_chars h
      rw [String.toList_ofList]
      exact List.mem_map_of_mem (f := fun c => asciiLower (plainLetter c)) hc
    rwa [map_toLower_eq hcs]

-- For ASCII bytes the three forms are one.
theorem ascii_forms {hostname : Bytes} (h : hostname.all asciiByte = true) :
    normalizeRouteHostname (hostnameText hostname) = canonicalHostname hostname := by
  have hcs : (text hostname).map toLower = (text hostname).map asciiLower := by
    apply List.map_congr_left
    intro c hc
    apply toLower_ascii
    rw [← text_all_isAscii] at h
    exact List.all_eq_true.1 h c hc
  rw [normalize_hostnameText, hcs, text_of_ascii h, canonicalHostname, List.map_map]
  rfl

-- A folded hostname that passes came from ASCII, unless a lookalike was folded.
theorem ascii_of_folded_valid {hostname : Bytes} (hplain : ∀ c ∈ text hostname, lookalike c = false)
    (h : validRouteHostname (normalizeRouteHostname (hostnameText hostname)) = true) :
    hostname.all asciiByte = true := by
  rw [← text_all_isAscii]
  apply List.all_eq_true.2
  intro c hc
  rw [normalize_hostnameText] at h
  have hlower : isAscii (toLower c) = true := by
    apply isAscii_of_hostChar
    apply validRouteHostname_chars h
    rw [String.toList_ofList]
    exact List.mem_map_of_mem hc
  rcases isAscii_toLower.1 hlower with hascii | hlook
  · exact hascii
  · rw [hplain c hc] at hlook
    cases hlook

section

variable {db db' : DB} {now : Nat} {p : Principal} {environmentID hostname : String} {head : RouteHead}

theorem createRouteHead_stored (h : createRouteHead now db p environmentID hostname = (db', .ok head)) :
    head.hostname = hostname ∧ db'.routeHeads.get? environmentID = some head := by
  unfold createRouteHead at h
  simp only at h
  split at h
  · split at h
    · cases (Prod.mk.inj h).2
    · cases (Prod.mk.inj h).2
  · rename_i db₁ hinsert
    obtain ⟨rfl, hhead⟩ := Prod.mk.inj h
    cases hhead
    simp only [insertRouteHead, bind_eq_ok, require_eq_ok, pure_eq_ok] at hinsert
    obtain ⟨_, -, _, -, rfl⟩ := hinsert
    exact ⟨rfl, Table.get?_put_self _ _ _⟩

theorem updateRouteHeadHostname_stored {expectedRevision : Nat}
    (h : updateRouteHeadHostname now db p environmentID hostname expectedRevision = (db', .ok head)) :
    head.hostname = hostname ∧ db'.routeHeads.get? environmentID = some head := by
  unfold updateRouteHeadHostname at h
  simp only at h
  split at h
  · cases (Prod.mk.inj h).2
  rename_i current hcurrent
  split at h
  · cases (Prod.mk.inj h).2
  split at h
  · cases (Prod.mk.inj h).2
  split at h
  · split at h
    · cases (Prod.mk.inj h).2
    · cases (Prod.mk.inj h).2
  · rename_i db₁ _ hupdate
    obtain ⟨rfl, hhead⟩ := Prod.mk.inj h
    cases hhead
    obtain ⟨-, rfl, -⟩ := (updateRouteHead_iff hcurrent rfl).1 hupdate
    exact ⟨rfl, Table.get?_put_self _ _ _⟩

-- A hostname that is stored passed the validation in its folded form, and that form is what is stored.
theorem assignRouteHostname_stored {expectedRevision : Option Nat}
    (h : assignRouteHostname now db p environmentID hostname expectedRevision = (db', .ok head)) :
    validRouteHostname (normalizeRouteHostname hostname) = true ∧ head.hostname = normalizeRouteHostname hostname ∧
      db'.routeHeads.get? environmentID = some head := by
  unfold assignRouteHostname at h
  simp only at h
  split at h
  · rename_i hchecks
    refine ⟨hchecks.2.2.1, ?_⟩
    split at h
    · exact createRouteHead_stored h
    · exact updateRouteHeadHostname_stored h
  · cases (Prod.mk.inj h).2

end

-- Folding keeps to ASCII for exactly the hostnames that are not a valid one in disguise.
theorem hostname_folds_ascii_iff (hostname : Bytes) :
    FoldsAsciiOnly hostname ↔
      ¬ ((∃ c ∈ text hostname, lookalike c = true) ∧ validRouteHostname (disguisedHostname hostname) = true) := by
  constructor
  · rintro hfolds ⟨⟨c, hc, hlook⟩, hvalid⟩
    obtain ⟨hascii, -⟩ := hfolds.passes.1 ((folded_valid_iff hostname).2 hvalid)
    rw [← text_all_isAscii] at hascii
    have hcascii := List.all_eq_true.1 hascii c hc
    rcases lookalike_iff.1 hlook with rfl | rfl
    · cases hcascii
    · cases hcascii
  · intro hnot
    have hascii (h : validRouteHostname (normalizeRouteHostname (hostnameText hostname)) = true) :
        hostname.all asciiByte = true := by
      refine ascii_of_folded_valid (fun c hc => ?_) h
      by_contra hlook
      exact hnot ⟨⟨c, hc, Bool.not_eq_false _ ▸ hlook⟩, (folded_valid_iff hostname).1 h⟩
    constructor
    · constructor
      · intro h
        exact ⟨hascii h, ascii_forms (hascii h) ▸ h⟩
      · rintro ⟨hall, h⟩
        rwa [ascii_forms hall]
    · intro now db p environmentID expectedRevision db' head h
      obtain ⟨hvalid, hhead, hrow⟩ := assignRouteHostname_stored h
      exact ⟨hascii hvalid, ascii_forms (hascii hvalid) ▸ hhead, hrow⟩

-- A hostname that starts with the Kelvin sign is stored as one that starts with k.
theorem kelvin_hostname_accepted : ¬ FoldsAsciiOnly ([0xe2, 0x84, 0xaa] ++ Bytes.ofString "8s.example.com") := by
  intro hfolds
  have hpasses : validRouteHostname (normalizeRouteHostname
      (hostnameText ([0xe2, 0x84, 0xaa] ++ Bytes.ofString "8s.example.com"))) = true := by decide +kernel
  have hascii := (hfolds.passes.1 hpasses).1
  revert hascii
  decide

end AutoDeploy.Protocol
