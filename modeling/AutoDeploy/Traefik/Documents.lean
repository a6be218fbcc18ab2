import AutoDeploy.Traefik
import AutoDeploy.Lib.Forms
import AutoDeploy.Lib.Utf8

namespace AutoDeploy

open Lib Lib.Result

namespace Text

-- The characters of opaque names.
def nameChar (c : Char) : Bool := isAlphanumeric c || c == '_' || c == '-'

-- The characters of route hostnames.
def hostChar (c : Char) : Bool := isLower c || isDigit c || c == '-' || c == '.'

theorem opaqueName_chars {n : Nat} {s : String} (h : opaqueName n s = true) {c : Char} (hc : c ∈ s.toList) :
    nameChar c = true := by
  unfold opaqueName at h
  cases hs : s.toList with
  | nil =>
      rw [hs] at hc
      exact absurd hc List.not_mem_nil
  | cons first rest =>
      rw [hs] at h hc
      simp only [Bool.and_eq_true, List.all_eq_true] at h
      rcases List.mem_cons.1 hc with rfl | hc
      · simp [nameChar, h.1.1]
      · exact h.2 c hc

-- A character is a separator, or it is in one of the pieces.
theorem mem_splitOn {sep c : Char} {text : List Char} (hc : c ∈ text) :
    c = sep ∨ ∃ piece ∈ splitOn sep text, c ∈ piece := by
  induction text with
  | nil => exact absurd hc List.not_mem_nil
  | cons first rest ih =>
      unfold splitOn
      cases hsplit : splitOn sep rest with
      | nil =>
          rcases List.mem_cons.1 hc with rfl | hc
          · exact .inr ⟨[c], List.mem_singleton_self _, List.mem_singleton_self _⟩
          · rcases ih hc with hsep | ⟨piece, hpiece, -⟩
            · exact .inl hsep
            · rw [hsplit] at hpiece
              exact absurd hpiece List.not_mem_nil
      | cons piece pieces =>
          by_cases hsep : first = sep
          · simp only [hsep, if_true]
            rcases List.mem_cons.1 hc with rfl | hc
            · exact .inl hsep
            · rcases ih hc with hc | ⟨found, hfound, hin⟩
              · exact .inl hc
              · exact .inr ⟨found, List.mem_cons_of_mem _ (hsplit ▸ hfound), hin⟩
          · simp only [hsep, if_false]
            rcases List.mem_cons.1 hc with rfl | hc
            · exact .inr ⟨c :: piece, List.mem_cons_self, List.mem_cons_self⟩
            · rcases ih hc with hc | ⟨found, hfound, hin⟩
              · exact .inl hc
              · rw [hsplit] at hfound
                rcases List.mem_cons.1 hfound with rfl | hfound
                · exact .inr ⟨first :: found, List.mem_cons_self, List.mem_cons_of_mem _ hin⟩
                · exact .inr ⟨found, List.mem_cons_of_mem _ hfound, hin⟩

end Text

namespace Healthgate

open Text

theorem routeHostLabel_chars {label : List Char} (h : routeHostLabel label = true) {c : Char} (hc : c ∈ label) :
    hostChar c = true := by
  unfold routeHostLabel at h
  cases label with
  | nil => exact absurd hc List.not_mem_nil
  | cons first rest =>
      simp only [Bool.and_eq_true, List.all_eq_true] at h
      obtain ⟨⟨⟨hfirst, -⟩, hrest⟩, -⟩ := h
      rcases List.mem_cons.1 hc with rfl | hc
      · simp [hostChar, hfirst]
      · have := hrest c hc
        simp [hostChar, this]

theorem validRouteHostname_chars {host : String} (h : validRouteHostname host = true) {c : Char}
    (hc : c ∈ host.toList) : hostChar c = true := by
  simp only [validRouteHostname, Bool.and_eq_true, List.all_eq_true] at h
  obtain ⟨⟨-, hlabels⟩, -⟩ := h
  have hplace : c = '.' ∨ ∃ label ∈ splitOn '.' host.toList, c ∈ label := mem_splitOn hc
  rcases hplace with rfl | ⟨label, hlabel, hin⟩
  · decide
  · exact routeHostLabel_chars (hlabels label hlabel) hin

end Healthgate

namespace Traefik

open Text

-- What a double-quoted scalar carries as it is: printable ASCII but for the quote and the backslash.
def plainChar (c : Char) : Bool := decide (' ' ≤ c) && decide (c ≤ '~') && c != '"' && c != '\\'

def Plain (s : String) : Prop := ∀ c ∈ s.toList, plainChar c = true

-- One text is checked character by character.
theorem plain_of_all {s : String} (h : s.toList.all plainChar = true) : Plain s := List.all_eq_true.1 h

theorem Plain.append {s t : String} (hs : Plain s) (ht : Plain t) : Plain (s ++ t) := by
  intro c hc
  rw [String.toList_append] at hc
  rcases List.mem_append.1 hc with hc | hc
  · exact hs c hc
  · exact ht c hc

theorem plainChar_of_range {c low high : Char} (hlow : low ≤ c) (hhigh : c ≤ high)
    (hbelow : ' ' ≤ low) (habove : high ≤ '~') (hquote : c ≠ '"') (hescape : c ≠ '\\') : plainChar c = true := by
  have hspace : ' ' ≤ c := Char.le_trans hbelow hlow
  have htilde : c ≤ '~' := Char.le_trans hhigh habove
  simp [plainChar, hspace, htilde, hquote, hescape]

theorem plainChar_of_alphanumeric {c : Char} (h : isAlphanumeric c = true) : plainChar c = true := by
  have hquote : c ≠ '"' := by
    rintro rfl
    exact absurd h (by decide)
  have hescape : c ≠ '\\' := by
    rintro rfl
    exact absurd h (by decide)
  simp only [isAlphanumeric, isDigit, isLower, isUpper, Bool.or_eq_true, Bool.and_eq_true, decide_eq_true_eq] at h
  rcases h with (⟨hlow, hhigh⟩ | ⟨hlow, hhigh⟩) | ⟨hlow, hhigh⟩ <;>
    exact plainChar_of_range hlow hhigh (by decide) (by decide) hquote hescape

theorem plainChar_of_nameChar {c : Char} (h : nameChar c = true) : plainChar c = true := by
  simp only [nameChar, Bool.or_eq_true, beq_iff_eq] at h
  rcases h with (h | rfl) | rfl
  · exact plainChar_of_alphanumeric h
  · decide
  · decide

theorem plainChar_of_hostChar {c : Char} (h : hostChar c = true) : plainChar c = true := by
  simp only [hostChar, Bool.or_eq_true, beq_iff_eq] at h
  rcases h with ((h | h) | rfl) | rfl
  · exact plainChar_of_alphanumeric (by simp [isAlphanumeric, h])
  · exact plainChar_of_alphanumeric (by simp [isAlphanumeric, h])
  · decide
  · decide

-- The byte of a plain character needs no escape.
theorem encode_plain {c : Char} (h : plainChar c = true) :
    ∃ b, String.utf8EncodeChar c = [b] ∧ ¬ 0x80 ≤ b ∧ escapeYAMLByte b = [b] := by
  simp only [plainChar, Bool.and_eq_true, decide_eq_true_eq, bne_iff_ne, ne_eq] at h
  obtain ⟨⟨⟨hlow, hhigh⟩, hquote⟩, hescape⟩ := h
  have hlow : 0x20 ≤ c.val.toNat := hlow
  have hhigh : c.val.toNat ≤ 0x7e := hhigh
  have hquote : c.val.toNat ≠ 0x22 := fun h => hquote (Char.ext (UInt32.toNat_inj.1 h))
  have hescape : c.val.toNat ≠ 0x5c := fun h => hescape (Char.ext (UInt32.toNat_inj.1 h))
  fun_cases String.utf8EncodeChar c with
  | case1 v h =>
      have hval : (UInt8.ofNat v).toNat = v := UInt8.toNat_ofNat_of_lt (Nat.lt_of_le_of_lt hhigh (by decide))
      have hne (b : UInt8) (h : v ≠ b.toNat) : UInt8.ofNat v ≠ b := fun heq => h (by rw [← heq, hval])
      have hascii : ¬ 0x80 ≤ UInt8.ofNat v := by
        rw [UInt8.le_iff_toNat_le, hval]
        exact Nat.not_le.2 (Nat.lt_of_le_of_lt hhigh (by decide))
      have hcontrol : ¬ (UInt8.ofNat v < 0x20 ∨ UInt8.ofNat v = 0x7f) := by
        rintro (hlt | heq)
        · rw [UInt8.lt_iff_toNat_lt, hval] at hlt
          exact absurd hlow (Nat.not_le.2 hlt)
        · exact hne 0x7f (Nat.ne_of_lt (Nat.lt_of_le_of_lt hhigh (by decide))) heq
      refine ⟨UInt8.ofNat v, rfl, hascii, ?_⟩
      rw [escapeYAMLByte, if_neg (hne 0x5c hescape), if_neg (hne 0x22 hquote),
        if_neg (hne 0x0a (Nat.ne_of_gt (Nat.lt_of_lt_of_le (by decide) hlow))),
        if_neg (hne 0x0d (Nat.ne_of_gt (Nat.lt_of_lt_of_le (by decide) hlow))),
        if_neg (hne 0x09 (Nat.ne_of_gt (Nat.lt_of_lt_of_le (by decide) hlow))), if_neg hcontrol]
  | case2 v h => omega
  | case3 v h => omega
  | case4 v h => omega

theorem quoteYAMLBody_plain {text : List Char} (h : ∀ c ∈ text, plainChar c = true) (offset : Nat) :
    quoteYAMLBody offset (Utf8.encode text) = .ok (Utf8.encode text) := by
  induction text generalizing offset with
  | nil => rfl
  | cons c text ih =>
      obtain ⟨b, hencode, hascii, hescape⟩ := encode_plain (h c List.mem_cons_self)
      have hrest := ih (fun d hd => h d (List.mem_cons_of_mem _ hd)) (offset + 1)
      have hbytes : Utf8.encode (c :: text) = b :: Utf8.encode text := by
        rw [Utf8.encode, List.flatMap_cons, hencode]
        rfl
      rw [hbytes, quoteYAMLBody, if_neg hascii, hrest, hescape]
      rfl

-- Text that needs no escape is written between quotes.
theorem quoteYAMLString_plain {s : String} (h : Plain s) :
    quoteYAMLString s = .ok (Bytes.ofString ("\"" ++ s ++ "\"")) := by
  have hbody := quoteYAMLBody_plain h 0
  rw [← Utf8.ofString_eq_encode] at hbody
  rw [quoteYAMLString, hbody, Bytes.ofString_append, Bytes.ofString_append]
  rfl

-- What validation promises of the fields that are written into the document.
structure EnvironmentRoute.Valid (r : EnvironmentRoute) : Prop where
  environment : ∀ c ∈ r.environmentID.toList, nameChar c = true
  host : ∀ c ∈ r.hostname.toList, hostChar c = true
  entrypoint : ∀ c ∈ r.entrypointName.toList, nameChar c = true
  resolver : ∀ c ∈ r.certResolverName.toList, nameChar c = true
  instanceID : opaqueName 127 r.backendRuntimeInstanceID = true
  release : ∀ c ∈ r.releaseID.toList, nameChar c = true
  fence : ∀ c ∈ r.fenceID.toList, nameChar c = true

theorem EnvironmentRoute.Valid.of_validate {r : EnvironmentRoute} (h : r.validate = .ok ()) : r.Valid := by
  simp only [EnvironmentRoute.validate, bind_eq_ok, require_eq_ok, exists_const] at h
  obtain ⟨henvironment, hhost, hentrypoint, hresolver, hinstance, -, hrelease, hfence⟩ := h
  have hopaque : opaqueName 127 r.backendRuntimeInstanceID = true := by
    by_contra hnot
    simp [Dockerid.containerName, hnot] at hinstance
  exact ⟨fun c => opaqueName_chars henvironment, fun c => Healthgate.validRouteHostname_chars hhost,
    fun c => opaqueName_chars hentrypoint, fun c => opaqueName_chars hresolver, hopaque,
    fun c => opaqueName_chars hrelease, fun c => opaqueName_chars hfence⟩

theorem plain_of_nameChars {s : String} (h : ∀ c ∈ s.toList, nameChar c = true) : Plain s :=
  fun c hc => plainChar_of_nameChar (h c hc)

theorem nameChar_of_digit {n : Nat} {c : Char} (hc : c ∈ (toString n).toList) : nameChar c = true := by
  have hdigit : c.isDigit = true := by
    rw [Nat.toString_eq_repr, Nat.toList_repr] at hc
    exact Nat.isDigit_of_mem_toDigits (by decide) (by decide) hc
  have hrange : isDigit c = true := by
    simp only [Char.isDigit, Bool.and_eq_true, decide_eq_true_eq] at hdigit
    have hbounds : '0' ≤ c ∧ c ≤ '9' := hdigit
    simp [isDigit, hbounds]
  simp [nameChar, isAlphanumeric, hrange]

theorem toString_injective {n m : Nat} (h : (toString n).toList = (toString m).toList) : n = m := by
  rw [Nat.toString_eq_repr, Nat.toString_eq_repr, Nat.toList_repr, Nat.toList_repr] at h
  have hvalue := congrArg (Nat.ofDigitChars 10 · 0) h
  simpa [Nat.ofDigitChars_toDigits] using hvalue

def chars (pieces : List String) : List Char := pieces.flatMap String.toList

-- The document as a form: its head, the fields in the order they are written, and the texts between them.
def documentHead : List Char := chars [
  "# Generated by autodeploy internal/runtime/traefik. Do not edit by hand;\n",
  "# this file is replaced atomically on every activation.\n",
  "# environment: "]

def documentTexts : List (List Char) := [
  ["\n", "# route_revision: "],
  ["\n", "http:\n", "  routers:\n", "    ", "\"", "autodeploy-router-"],
  ["\"", ":\n", "      rule: ", "\"", "Host(`"],
  ["`)", "\"", "\n", "      entryPoints:\n", "        - ", "\""],
  ["\"", "\n", "      service: ", "\""],
  ["\"", "\n", "      tls:\n", "        certResolver: ", "\""],
  ["\"", "\n", "  services:\n", "    ", "\""],
  ["\"", ":\n", "      loadBalancer:\n", "        servers:\n", "          - url: ", "\""],
  ["://", Dockerid.containerNamePrefix],
  [":"],
  ["\"", "\n"]].map chars

def documentFields (r : EnvironmentRoute) : List (List Char) := [
  r.environmentID,
  toString r.routeRevision,
  r.environmentID,
  r.hostname,
  r.entrypointName,
  serviceName r,
  r.certResolverName,
  serviceName r,
  r.backendScheme.text,
  r.backendRuntimeInstanceID,
  toString r.backendPort].map String.toList

def documentText (r : EnvironmentRoute) : String :=
  String.ofList (documentHead ++ Form.fill documentTexts (documentFields r))

section

variable {r : EnvironmentRoute} (h : r.Valid)

include h

theorem EnvironmentRoute.Valid.backend : backendServerURL r =
    .ok (r.backendScheme.text ++ "://" ++ (Dockerid.containerNamePrefix ++ r.backendRuntimeInstanceID) ++ ":" ++
      toString r.backendPort) := by
  simp [backendServerURL, Dockerid.containerName, h.instanceID]

theorem EnvironmentRoute.Valid.plain_service : Plain (serviceName r) := by
  unfold serviceName
  have hfirst : Plain "autodeploy-svc-" := plain_of_all (by decide)
  have hdash : Plain "-" := plain_of_all (by decide)
  exact (((hfirst.append (plain_of_nameChars h.environment)).append hdash).append (plain_of_nameChars h.release)).append
    hdash |>.append (plain_of_nameChars h.fence)

theorem EnvironmentRoute.Valid.plain_rule : Plain (ruleValue r.hostname) := by
  unfold ruleValue
  have hopen : Plain "Host(`" := plain_of_all (by decide)
  have hclose : Plain "`)" := plain_of_all (by decide)
  exact (hopen.append fun c hc => plainChar_of_hostChar (h.host c hc)).append hclose

theorem EnvironmentRoute.Valid.plain_backend : Plain (r.backendScheme.text ++ "://" ++
    (Dockerid.containerNamePrefix ++ r.backendRuntimeInstanceID) ++ ":" ++ toString r.backendPort) := by
  have hscheme : Plain r.backendScheme.text := by
    cases r.backendScheme <;> exact plain_of_all (by decide)
  have hslashes : Plain "://" := plain_of_all (by decide)
  have hname : Plain Dockerid.containerNamePrefix := plain_of_all (by decide)
  have hcolon : Plain ":" := plain_of_all (by decide)
  exact ((hscheme.append hslashes).append (hname.append (plain_of_nameChars fun c => opaqueName_chars h.instanceID))).append
    hcolon |>.append (plain_of_nameChars fun c => nameChar_of_digit)

theorem EnvironmentRoute.Valid.renderDocument_eq (backend : String)
    (hbackend : backend = r.backendScheme.text ++ "://" ++
      (Dockerid.containerNamePrefix ++ r.backendRuntimeInstanceID) ++ ":" ++ toString r.backendPort) :
    renderDocument r (routerName r) (serviceName r) backend = .ok (Bytes.ofString (documentText r)) := by
  have hrouter : Plain (routerName r) := by
    unfold routerName
    have hfirst : Plain "autodeploy-router-" := plain_of_all (by decide)
    exact hfirst.append (plain_of_nameChars h.environment)
  subst hbackend
  simp only [renderDocument, quoteYAMLString_plain hrouter, quoteYAMLString_plain h.plain_rule,
    quoteYAMLString_plain (plain_of_nameChars h.entrypoint), quoteYAMLString_plain h.plain_service,
    quoteYAMLString_plain (plain_of_nameChars h.resolver), quoteYAMLString_plain h.plain_backend, ok_bind, line,
    ← Bytes.ofString_append]
  refine pure_eq_ok.2 (congrArg Bytes.ofString (String.toList_inj.1 ?_))
  unfold routerName ruleValue
  simp only [documentText, documentHead, documentTexts, documentFields, chars, List.flatMap_cons, List.flatMap_nil,
    List.map_cons, List.map_nil, Form.fill, String.toList_append, String.toList_ofList, List.append_assoc,
    List.append_nil]

theorem EnvironmentRoute.Valid.fits : Form.Fits documentTexts (documentFields r) := by
  have hname {s : String} (hs : ∀ c ∈ s.toList, nameChar c = true) {stop : Char} (hstop : nameChar stop = false) :
      stop ∉ s.toList := fun hmem => absurd (hs stop hmem) (by simp [hstop])
  have hplain {s : String} (hs : Plain s) : '"' ∉ s.toList := fun hmem => absurd (hs _ hmem) (by decide)
  have hdigits (n : Nat) : ∀ c ∈ (toString n).toList, nameChar c = true := fun c => nameChar_of_digit
  have hscheme : ':' ∉ r.backendScheme.text.toList := by
    cases r.backendScheme <;> decide
  refine .cons ⟨'\n', _, rfl, hname h.environment (by decide)⟩ ?_
  refine .cons ⟨'\n', _, rfl, hname (hdigits r.routeRevision) (by decide)⟩ ?_
  refine .cons ⟨'"', _, rfl, hname h.environment (by decide)⟩ ?_
  refine .cons ⟨'`', _, rfl, fun hmem => absurd (h.host _ hmem) (by decide)⟩ ?_
  refine .cons ⟨'"', _, rfl, hname h.entrypoint (by decide)⟩ ?_
  refine .cons ⟨'"', _, rfl, hplain h.plain_service⟩ ?_
  refine .cons ⟨'"', _, rfl, hname h.resolver (by decide)⟩ ?_
  refine .cons ⟨'"', _, rfl, hplain h.plain_service⟩ ?_
  refine .cons ⟨':', _, rfl, hscheme⟩ ?_
  refine .cons ⟨':', _, rfl, hname (fun c => opaqueName_chars h.instanceID) (by decide)⟩ ?_
  exact .cons ⟨'"', _, rfl, hname (hdigits r.backendPort) (by decide)⟩ .nil

end

theorem render_eq {r : EnvironmentRoute} (h : r.validate = .ok ()) :
    render r = .ok (Bytes.ofString (documentText r), digest (Bytes.ofString (documentText r))) := by
  have hvalid := EnvironmentRoute.Valid.of_validate h
  simp only [render, h, hvalid.backend, hvalid.renderDocument_eq _ rfl, ok_bind]
  rfl

theorem Scheme.text_injective {s t : Scheme} (h : s.text.toList = t.text.toList) : s = t := by
  cases s <;> cases t <;> first | rfl | exact absurd h (by decide)

theorem serviceName_toList (r : EnvironmentRoute) : (serviceName r).toList = "autodeploy-svc-".toList ++
    (r.environmentID.toList ++ '-' :: (r.releaseID.toList ++ '-' :: r.fenceID.toList)) := by
  unfold serviceName
  simp only [String.toList_append, List.append_assoc]
  rfl

-- The second route has a part of the first one's fence, up to a hyphen, at the end of its release: both read the same
-- service name.
def Resplit (r r' : EnvironmentRoute) : Prop :=
  ∃ piece : String, r.fenceID = piece ++ "-" ++ r'.fenceID ∧
    r' = { r with releaseID := r.releaseID ++ "-" ++ piece, fenceID := r'.fenceID }

theorem Resplit.of_lists {r r' : EnvironmentRoute} {piece : List Char}
    (hrelease : r'.releaseID.toList = r.releaseID.toList ++ '-' :: piece)
    (hfence : r.fenceID.toList = piece ++ '-' :: r'.fenceID.toList)
    (hsame : r' = { r with releaseID := r'.releaseID, fenceID := r'.fenceID }) : Resplit r r' := by
  have hmoved : r'.releaseID = r.releaseID ++ "-" ++ String.ofList piece := by
    apply String.toList_inj.1
    simp [hrelease]
  refine ⟨String.ofList piece, ?_, ?_⟩
  · apply String.toList_inj.1
    simp [hfence]
  · rw [← hmoved]
    exact hsame

theorem Resplit.serviceName_eq {r r' : EnvironmentRoute} (h : Resplit r r') : serviceName r = serviceName r' := by
  obtain ⟨piece, hfence, hsame⟩ := h
  rw [hsame]
  unfold serviceName
  rw [hfence]
  simp only [String.append_assoc]

theorem Resplit.document_eq {r r' : EnvironmentRoute} (h : Resplit r r') : documentText r = documentText r' := by
  have hservice := h.serviceName_eq
  obtain ⟨piece, hfence, hsame⟩ := h
  have hfields : documentFields r = documentFields r' := by
    unfold documentFields
    rw [hservice, hsame]
  unfold documentText
  rw [hfields]

theorem Resplit.ne {r r' : EnvironmentRoute} (h : Resplit r r') : r ≠ r' := by
  rintro rfl
  obtain ⟨piece, -, hsame⟩ := h
  have hrelease := congrArg (fun r => (EnvironmentRoute.releaseID r).toList.length) hsame
  simp only [String.toList_append, List.length_append] at hrelease
  have hdash : ("-" : String).toList.length = 1 := rfl
  omega

-- Equal documents: equal routes, or one of the two is the other with its names split elsewhere.
theorem route_of_document {r r' : EnvironmentRoute} (h : r.Valid) (h' : r'.Valid)
    (hdoc : documentText r = documentText r') : r = r' ∨ Resplit r r' ∨ Resplit r' r := by
  have hfill : Form.fill documentTexts (documentFields r) = Form.fill documentTexts (documentFields r') :=
    List.append_cancel_left (String.ofList_injective hdoc)
  have hfields := Form.fill_injective h.fits h'.fits hfill
  simp only [documentFields, List.map_cons, List.map_nil, List.cons.injEq, and_true] at hfields
  obtain ⟨henvironment, hrevision, -, hhost, hentrypoint, hservice, hresolver, -, hscheme, hinstance, hport⟩ := hfields
  have hsame : r' = { r with releaseID := r'.releaseID, fenceID := r'.fenceID } := by
    obtain ⟨environmentID, routeRevision, hostname, entrypointName, certResolverName, instanceID, port, scheme, releaseID,
      fenceID⟩ := r'
    rw [EnvironmentRoute.mk.injEq]
    exact ⟨(String.toList_inj.1 henvironment).symm, (toString_injective hrevision).symm, (String.toList_inj.1 hhost).symm,
      (String.toList_inj.1 hentrypoint).symm, (String.toList_inj.1 hresolver).symm, (String.toList_inj.1 hinstance).symm,
      (toString_injective hport).symm, (Scheme.text_injective hscheme).symm, rfl, rfl⟩
  -- only the service name can be read in more than one way
  rw [serviceName_toList, serviceName_toList, henvironment] at hservice
  have hnames := (List.cons.inj (List.append_cancel_left (List.append_cancel_left hservice))).2
  rcases Form.cut_cases hnames with ⟨hrelease, hfence⟩ | ⟨piece, hrelease, hfence⟩ | ⟨piece, hrelease, hfence⟩
  · left
    rw [hsame, ← String.toList_inj.1 hrelease, ← String.toList_inj.1 hfence]
  · exact .inr (.inl (.of_lists hrelease hfence hsame))
  · refine .inr (.inr (.of_lists hrelease hfence ?_))
    rw [hsame]

-- Two routes are told apart by their documents and, unless the two documents collide, by their digests.
structure Identified (r r' : EnvironmentRoute) : Prop where
  byDocument : ∀ doc text text', render r = .ok (doc, text) → render r' = .ok (doc, text') → r = r'
  byDigest : ∀ doc doc' text, render r = .ok (doc, text) → render r' = .ok (doc', text) →
    (Sha256.sum doc = Sha256.sum doc' → doc = doc') → r = r'

theorem routes_identified_iff (r r' : EnvironmentRoute) (h : r.validate = .ok ()) (h' : r'.validate = .ok ()) :
    Identified r r' ↔ ¬ Resplit r r' ∧ ¬ Resplit r' r := by
  have hrender := render_eq h
  have hrender' := render_eq h'
  constructor
  · intro hidentified
    have hequal (hdoc : documentText r = documentText r') : r = r' := by
      refine hidentified.byDocument _ _ (digest (Bytes.ofString (documentText r'))) hrender ?_
      rw [hdoc]
      exact hrender'
    exact ⟨fun hsplit => hsplit.ne (hequal hsplit.document_eq),
      fun hsplit => hsplit.ne (hequal hsplit.document_eq.symm).symm⟩
  · rintro ⟨hforth, hback⟩
    have hequal (hdoc : Bytes.ofString (documentText r) = Bytes.ofString (documentText r')) : r = r' := by
      rcases route_of_document (.of_validate h) (.of_validate h') (Bytes.ofString_injective hdoc) with heq | hsplit | hsplit
      · exact heq
      · exact absurd hsplit hforth
      · exact absurd hsplit hback
    constructor
    · intro doc text text' hdoc hdoc'
      rw [hrender, Except.ok.injEq, Prod.mk.injEq] at hdoc
      rw [hrender', Except.ok.injEq, Prod.mk.injEq] at hdoc'
      exact hequal (hdoc.1.trans hdoc'.1.symm)
    · intro doc doc' text hdoc hdoc' hcollision
      rw [hrender, Except.ok.injEq, Prod.mk.injEq] at hdoc
      rw [hrender', Except.ok.injEq, Prod.mk.injEq] at hdoc'
      obtain ⟨rfl, hdigest⟩ := hdoc
      obtain ⟨rfl, hdigest'⟩ := hdoc'
      exact hequal (hcollision (digestText_injective (hdigest.trans hdigest'.symm)))

def sampleRoute : EnvironmentRoute where
  environmentID := "env1"
  routeRevision := 3
  hostname := "app.example.com"
  entrypointName := defaultEntrypointName
  certResolverName := defaultCertResolverName
  backendRuntimeInstanceID := "7"
  backendPort := 8080
  backendScheme := .http
  releaseID := "a"
  fenceID := "b-c"

theorem routes_identified_iff_nextRevision : Identified sampleRoute { sampleRoute with routeRevision := 4 } := by
  refine (routes_identified_iff _ _ (by decide +kernel) (by decide +kernel)).2 ⟨?_, ?_⟩
  · rintro ⟨piece, -, hsame⟩
    have hrevision : 4 = 3 := congrArg EnvironmentRoute.routeRevision hsame
    omega
  · rintro ⟨piece, -, hsame⟩
    have hrevision : 3 = 4 := congrArg EnvironmentRoute.routeRevision hsame
    omega

-- Release `a` under fence `b-c` and release `a-b` under fence `c` are written alike.
theorem resplit_routes_collide :
    ¬ ∀ r r' : EnvironmentRoute, r.validate = .ok () → r'.validate = .ok () → Identified r r' := by
  intro hall
  have hvalid : sampleRoute.validate = .ok () := by decide +kernel
  have hvalid' : { sampleRoute with releaseID := "a-b", fenceID := "c" }.validate = .ok () := by decide +kernel
  have hsplit : Resplit sampleRoute { sampleRoute with releaseID := "a-b", fenceID := "c" } := ⟨"b", by decide, by decide⟩
  have hrender := render_eq hvalid'
  rw [← hsplit.document_eq] at hrender
  exact hsplit.ne ((hall _ _ hvalid hvalid').byDocument _ _ _ (render_eq hvalid) hrender)

end Traefik

end AutoDeploy
