import AutoDeploy.Secret.Materialization
import AutoDeploy.Protocol.Theorems.Materialization

namespace AutoDeploy.Secret

open Lib Lib.Result Crypto

-- The agent's side: how the response is read, and what arrives of the values.

-- Names are compared without regard to case; U+017F and U+212A fold to letters.
def foldName : Bytes → Bytes
  | [] => []
  | 0xc5 :: 0xbf :: rest => 0x53 :: foldName rest
  | 0xe2 :: 0x84 :: 0xaa :: rest => 0x4b :: foldName rest
  | b :: rest => (if 0x61 ≤ b ∧ b ≤ 0x7a then b - 0x20 else b) :: foldName rest

def named (name key : Bytes) : Bool := foldName name == foldName key

-- A null leaves what was there.
def decodeText (old : Bytes) : Json → Option Bytes
  | .str text => some text
  | .null => some old
  | _ => none

def MaterializedSecret.set (s : MaterializedSecret) (field : Bytes × Json) : Option MaterializedSecret :=
  if named field.1 variableNameKey then (decodeText s.variableName field.2).map fun text => { s with variableName := text }
  else if named field.1 deliveryScopeKey then
    (decodeText s.deliveryScope field.2).map fun text => { s with deliveryScope := text }
  else if named field.1 valueKey then (decodeText s.value field.2).map fun text => { s with value := text }
  else none

def decodeSecret (old : MaterializedSecret) : Json → Option MaterializedSecret
  | .null => some old
  | .obj fields => fields.foldlM MaterializedSecret.set old
  | _ => none

-- A repeated list is read over the one before it.
def decodeItems : List MaterializedSecret → List Json → Option (List MaterializedSecret)
  | _, [] => some []
  | old, item :: items => do
      let secret ← decodeSecret (old.headD ⟨[], [], []⟩) item
      let secrets ← decodeItems old.tail items
      some (secret :: secrets)

def decodeSecrets (old : List MaterializedSecret) : Json → Option (List MaterializedSecret)
  | .null => some []
  | .arr items => decodeItems old items
  | _ => none

-- Names that are not known are refused.
def decodeResponse : Json → Option (List MaterializedSecret)
  | .null => some []
  | .obj fields => fields.foldlM
      (fun old field => if named field.1 secretsKey then decodeSecrets old field.2 else none) []
  | _ => none

-- What follows the first value is not looked at.
def readResponse (body : Bytes) : Option (List MaterializedSecret) :=
  (Json.parse body.length body).bind fun read => decodeResponse read.1

-- What `attempt` makes of a response it has read.
def receive : Agent.Reply Bytes → Except Agent.ClientError (List MaterializedSecret)
  | .refused status error => .error (Agent.mapStatus status error)
  | .ok body =>
      if Agent.maxResponseBytes < body.length then .error .transportFailure
      else found (readResponse body) .transportFailure

-- The requests of one call, each served in the situation of its turn.
def serveSecrets (situations : Nat → Situation) (serverID : String) (digest : Digest) (attemptID fence : Nat) (n : Nat) :
    Except Agent.ClientError (List MaterializedSecret) × Nat :=
  (receive (handleMaterializeSecrets (situations n) serverID digest attemptID fence).1, n + 1)

def materializeSecrets (situations : Nat → Situation) (serverID : String) (digest : Digest) (attemptID fence : Nat)
    (fates : Agent.Fates) : Except Agent.ClientError (List MaterializedSecret) :=
  (Agent.post (serveSecrets situations serverID digest attemptID fence) fates 0).1

-- What the reader gets of a value.
def MaterializedSecret.cleaned (s : MaterializedSecret) : MaterializedSecret :=
  ⟨Utf8.sanitize s.variableName, Utf8.sanitize s.deliveryScope, Utf8.sanitize s.value⟩

-- What the keys of the response are to its reader: plain text, each read under its own name, of a known size.
theorem sanitize_keys : (Utf8.sanitize variableNameKey = variableNameKey ∧ Utf8.sanitize deliveryScopeKey = deliveryScopeKey) ∧
    Utf8.sanitize valueKey = valueKey ∧ Utf8.sanitize secretsKey = secretsKey := by
  decide

theorem named_keys : (named variableNameKey variableNameKey = true ∧ named secretsKey secretsKey = true) ∧
    (named deliveryScopeKey variableNameKey = false ∧ named deliveryScopeKey deliveryScopeKey = true) ∧
    named valueKey variableNameKey = false ∧ named valueKey deliveryScopeKey = false ∧ named valueKey valueKey = true := by
  decide

theorem escapedSize_keys : (Json.escapedSize variableNameKey = 13 ∧ Json.escapedSize deliveryScopeKey = 14) ∧
    Json.escapedSize valueKey = 5 ∧ Json.escapedSize secretsKey = 7 := by
  decide

theorem cleaned_view (s : MaterializedSecret) : s.view.cleaned = s.cleaned.view := by
  obtain ⟨⟨hname, hscope⟩, hvalue, -⟩ := sanitize_keys
  simp only [MaterializedSecret.view, Json.cleaned, Json.cleanedFields, hname, hscope, hvalue, MaterializedSecret.cleaned]

theorem cleaned_response (values : List MaterializedSecret) :
    (materializeResponse values).cleaned = materializeResponse (values.map MaterializedSecret.cleaned) := by
  have hsecrets : Utf8.sanitize secretsKey = secretsKey := sanitize_keys.2.2
  have hitems : Json.cleanedItems (values.map MaterializedSecret.view) =
      (values.map MaterializedSecret.cleaned).map MaterializedSecret.view := by
    induction values with
    | nil => rfl
    | cons s values ih =>
        rw [List.map_cons, Json.cleanedItems, ih, cleaned_view]
        rfl
  simp only [materializeResponse, Json.cleaned, Json.cleanedFields, hsecrets, hitems]

theorem decodeSecret_view (s : MaterializedSecret) : decodeSecret ⟨[], [], []⟩ s.view = some s := by
  obtain ⟨⟨hname, -⟩, hscope, hvalue⟩ := named_keys
  simp only [MaterializedSecret.view, decodeSecret, List.foldlM_cons, List.foldlM_nil, MaterializedSecret.set, hname,
    hscope.1, hscope.2, hvalue.1, hvalue.2.1, hvalue.2.2, if_true, if_false, Bool.false_eq_true, decodeText,
    Option.map_some, Option.bind_eq_bind, Option.bind_some, Option.pure_def]

theorem decodeResponse_view (values : List MaterializedSecret) :
    decodeResponse (materializeResponse values) = some values := by
  have hsecrets : named secretsKey secretsKey = true := named_keys.1.2
  have hitems : decodeItems [] (values.map MaterializedSecret.view) = some values := by
    induction values with
    | nil => rfl
    | cons s values ih =>
        simp only [List.map_cons, decodeItems, List.headD_nil, List.tail_nil, decodeSecret_view, ih, Option.bind_eq_bind,
          Option.bind_some]
  simp only [materializeResponse, decodeResponse, List.foldlM_cons, List.foldlM_nil, hsecrets, if_true, decodeSecrets,
    hitems, Option.bind_eq_bind, Option.bind_some, Option.pure_def]

theorem readResponse_render (values : List MaterializedSecret) :
    readResponse (materializeResponse values).render = some (values.map MaterializedSecret.cleaned) := by
  have hparse := Json.parse_render (materializeResponse values) (le_refl _) []
  rw [List.append_nil] at hparse
  rw [readResponse, hparse, Option.bind_some, cleaned_response, decodeResponse_view]

-- The size of the response, from the sizes of what it carries.
def MaterializedSecret.size (s : MaterializedSecret) : Nat :=
  51 + Json.escapedSize s.variableName + Json.escapedSize s.deliveryScope + Json.escapedSize s.value

def responseSize (values : List MaterializedSecret) : Nat :=
  14 + (values.map MaterializedSecret.size).sum + (values.length - 1)

theorem length_view (s : MaterializedSecret) : s.view.render.length = s.size := by
  obtain ⟨⟨hname, hscope⟩, hvalue, -⟩ := escapedSize_keys
  simp only [MaterializedSecret.view, Json.render, Json.renderFields, List.length_cons, List.length_append,
    List.length_nil, Json.length_quote, hname, hscope, hvalue, MaterializedSecret.size]
  omega

theorem length_renderItems (values : List MaterializedSecret) :
    (Json.renderItems (values.map MaterializedSecret.view)).length =
      1 + (values.map MaterializedSecret.size).sum + (values.length - 1) := by
  induction values with
  | nil => rfl
  | cons s values ih =>
      obtain ⟨tail, htail, hcases⟩ := Json.renderItems_cons s.view (values.map MaterializedSecret.view)
      rw [List.map_cons, htail, List.length_append, length_view, List.map_cons, List.sum_cons, List.length_cons]
      obtain ⟨hnil, rfl⟩ | ⟨hne, rfl⟩ := hcases
      · obtain rfl := List.map_eq_nil_iff.1 hnil
        simp only [List.length_cons, List.length_nil, List.map_nil, List.sum_nil]
        omega
      · have hpos : 0 < values.length := by
          rw [List.length_pos_iff]
          rintro rfl
          exact hne rfl
        rw [List.length_cons, ih]
        omega

theorem length_response (values : List MaterializedSecret) :
    (materializeResponse values).render.length = responseSize values := by
  have hsecrets : Json.escapedSize secretsKey = 7 := escapedSize_keys.2.2
  simp only [materializeResponse, Json.render, Json.renderFields, List.length_cons, List.length_append, List.length_nil,
    Json.length_quote, hsecrets, length_renderItems, responseSize]
  omega

theorem cleaned_delivered (w : World) (b : Store.FrozenBinding) :
    (w.delivered b).cleaned = w.delivered b ↔ Utf8.validString (w.given (Bytes.ofString b.secretVersionID)) = true := by
  have hname := (Utf8.sanitize_eq_iff _).2 (Utf8.validString_ofString b.variableName)
  have hscope := (Utf8.sanitize_eq_iff _).2 (Utf8.validString_ofString b.deliveryScope.text)
  rw [← Utf8.sanitize_eq_iff]
  simp only [MaterializedSecret.cleaned, World.delivered, hname, hscope, MaterializedSecret.mk.injEq, true_and]

-- While the call lasts, every request that reaches the control plane is answered. The secrets may go on changing in
-- between; the frozen set does not.
structure Served (w : World) (frozen : List Store.FrozenBinding) (situations : Nat → Situation) (serverID : String)
    (digest : Digest) (attemptID fence : Nat) : Prop where
  later : ∀ n, secretSystem.Run w (situations n).world
  frozen : ∀ n, ((situations n).store.frozenBindings.get? attemptID).getD [] = frozen
  answered : ∀ n, ∃ body db, handleMaterializeSecrets (situations n) serverID digest attemptID fence = (.ok body, db)

section

variable {w : World} {frozen : List Store.FrozenBinding} {situations : Nat → Situation} {serverID : String}
  {digest : Digest} {attemptID fence : Nat}

theorem delivered_run {w' : World} (hw : secretSystem.Reachable w) (hrun : secretSystem.Run w w')
    (hreferenced : Referenced w.db frozen) : frozen.map w'.delivered = frozen.map w.delivered := by
  refine List.map_congr_left fun b hb => ?_
  obtain ⟨row, hrow⟩ := hreferenced b hb
  simp only [World.delivered, given_run hw hrun hrow]

theorem Served.response (h : Served w frozen situations serverID digest attemptID fence)
    (hw : secretSystem.Reachable w) (hreferenced : Referenced w.db frozen) (n : Nat) :
    (handleMaterializeSecrets (situations n) serverID digest attemptID fence).1 =
      .ok (materializeResponse (frozen.map w.delivered)).render := by
  obtain ⟨body, db, hanswer⟩ := h.answered n
  have hrun := h.later n
  have hkept : Referenced (situations n).world.db (((situations n).store.frozenBindings.get? attemptID).getD []) := by
    rw [h.frozen n]
    intro b hb
    obtain ⟨row, hrow⟩ := hreferenced b hb
    obtain ⟨row', hrow', _⟩ := (follows_run hrun).versions _ row hrow
    exact ⟨row', hrow'⟩
  have hbody := handleMaterializeSecrets_eq_ok (hw.run hrun) hkept hanswer
  rw [h.frozen n, delivered_run hw hrun hreferenced] at hbody
  rw [hanswer, hbody]

-- What one answered request gives the agent.
theorem Served.received (h : Served w frozen situations serverID digest attemptID fence)
    (hw : secretSystem.Reachable w) (hreferenced : Referenced w.db frozen) (n : Nat) :
    (serveSecrets situations serverID digest attemptID fence n).1 =
      if Agent.maxResponseBytes < responseSize (frozen.map w.delivered) then .error .transportFailure
      else .ok ((frozen.map w.delivered).map MaterializedSecret.cleaned) := by
  rw [serveSecrets, h.response hw hreferenced n]
  simp only [receive, length_response, readResponse_render, found_some]

-- A secret set is delivered as it was given exactly when its values are text and the response is short enough for the
-- agent's reader. Whatever the network does, an answered call fails or is altered otherwise.
theorem secrets_delivered_iff (hw : secretSystem.Reachable w) (hreferenced : Referenced w.db frozen)
    (hserved : Served w frozen situations serverID digest attemptID fence) {fates : Agent.Fates}
    (hdelivered : .delivered ∈ fates.list) (hlive : ∀ served, .expired served ∉ fates.list) :
    materializeSecrets situations serverID digest attemptID fence fates = .ok (frozen.map w.delivered) ↔
      (∀ b ∈ frozen, Utf8.validString (w.given (Bytes.ofString b.secretVersionID)) = true) ∧
        responseSize (frozen.map w.delivered) ≤ Agent.maxResponseBytes := by
  have hreceived := hserved.received hw hreferenced
  by_cases hlong : Agent.maxResponseBytes < responseSize (frozen.map w.delivered)
  · -- no attempt can read the response
    have hfails : ∃ e, materializeSecrets situations serverID digest attemptID fence fates = .error e := by
      refine (Agent.postAll_rule (P := fun r => ∃ e, r = .error e) (I := fun _ => True) ⟨_, rfl⟩ ?_ fates.list trivial).1
      intro n fate _
      cases fate with
      | delivered => exact ⟨⟨_, by rw [Agent.attempt, hreceived n, if_pos hlong]⟩, trivial⟩
      | requestLost | responseLost | unavailable | expired => exact ⟨⟨_, rfl⟩, trivial⟩
    obtain ⟨e, he⟩ := hfails
    rw [he]
    constructor
    · intro hok
      cases hok
    · rintro ⟨-, hshort⟩
      omega
  · have hok : materializeSecrets situations serverID digest attemptID fence fates =
        .ok ((frozen.map w.delivered).map MaterializedSecret.cleaned) := by
      refine Agent.postAll_of_served ?_ hdelivered hlive 0
      intro n
      rw [hreceived n, if_neg hlong]
    have hsame : (frozen.map w.delivered).map MaterializedSecret.cleaned = frozen.map w.delivered ↔
        ∀ b ∈ frozen, Utf8.validString (w.given (Bytes.ofString b.secretVersionID)) = true := by
      rw [List.map_map, List.map_inj_left]
      exact forall₂_congr fun b _ => cleaned_delivered w b
    rw [hok, Except.ok.injEq, hsame]
    exact ⟨fun h => ⟨h, by omega⟩, fun h => h.1⟩

end

-- One secret, bound to one variable of a running attempt.
def deliveryCreate (plaintext : Bytes) : Request :=
  ⟨.create, ⟨Bytes.ofString "own", Bytes.ofString "prj", Bytes.ofString "env", Bytes.ofString "sec", runtimeText,
    runtimeText⟩, Bytes.ofString "ver", sampleOperation (Bytes.ofString "audit-1"), plaintext⟩

def deliveryEvents (plaintext : Bytes) : List Event :=
  [.initLedger firstID sampleGeneration, .begin (deliveryCreate plaintext), .reserve 0 (sampleRing firstID).provider,
    .encrypt 0 ⟨List.replicate 32 1, List.replicate (plaintext.length + 28) 2, List.replicate 60 3⟩, .commit 0]

def deliverySituation (w : World) : Situation :=
  ⟨2000, Protocol.sampleRotated, w, some (sampleRing firstID).provider, fun _ => some (List.replicate 16 0)⟩

def deliveryFates : Agent.Fates := ⟨[.responseLost, .unavailable, .delivered, .requestLost, .requestLost], rfl⟩

def deliveryAnswered (plaintext : Bytes) (w : World) : Bool :=
  w.given (Bytes.ofString "ver") == plaintext && (w.db.versions.get? (Bytes.ofString "ver")).isSome &&
    match (handleMaterializeSecrets (deliverySituation w) "srv" Protocol.sampleToken 1 1).1 with
    | .ok _ => true
    | .refused _ _ => false

def deliveryBinding : Store.FrozenBinding := ⟨"TOKEN", .runtime, "ver"⟩

theorem delivery_served {plaintext : Bytes} {w : World} (hsample : deliveryAnswered plaintext w = true) :
    w.given (Bytes.ofString "ver") = plaintext ∧ Referenced w.db [deliveryBinding] ∧
      Served w [deliveryBinding] (fun _ => deliverySituation w) "srv" Protocol.sampleToken 1 1 := by
  simp only [deliveryAnswered, Bool.and_eq_true, beq_iff_eq] at hsample
  obtain ⟨⟨hgiven, hrow⟩, hanswered⟩ := hsample
  obtain ⟨row, hrow⟩ := Option.isSome_iff_exists.1 hrow
  have hfrozen : (Protocol.sampleRotated.frozenBindings.get? 1).getD [] = [deliveryBinding] := by decide
  refine ⟨hgiven, ?_, ⟨fun _ => .refl, fun _ => hfrozen, fun _ => ?_⟩⟩
  · intro b hb
    obtain rfl := List.mem_singleton.1 hb
    exact ⟨row, hrow⟩
  · cases hcall : handleMaterializeSecrets (deliverySituation w) "srv" Protocol.sampleToken 1 1 with
    | mk reply db =>
        rw [hcall] at hanswered
        cases reply with
        | ok body => exact ⟨body, db, rfl⟩
        | refused status error => cases hanswered

-- Two attempts are lost, and the third delivers the value.
theorem secrets_delivered_iff_text :
    ∃ w, secretSystem.Reachable w ∧ materializeSecrets (fun _ => deliverySituation w) "srv" Protocol.sampleToken 1 1
      deliveryFates = .ok [⟨Bytes.ofString "TOKEN", runtimeText, Bytes.ofString "hunter2"⟩] := by
  have hrun : ((World.initial sampleGeneration).run (deliveryEvents (Bytes.ofString "hunter2"))).any
      (deliveryAnswered (Bytes.ofString "hunter2")) = true := by decide
  obtain ⟨w, hw, hsample⟩ := World.exists_of_events hrun
  obtain ⟨hgiven, hreferenced, hserved⟩ := delivery_served hsample
  have hvalue : w.delivered deliveryBinding =
      ⟨Bytes.ofString "TOKEN", runtimeText, Bytes.ofString "hunter2"⟩ := by
    rw [World.delivered, show deliveryBinding.secretVersionID = "ver" from rfl, hgiven]
    rfl
  have hdelivered : .delivered ∈ deliveryFates.list := by decide
  have hlive : ∀ served, .expired served ∉ deliveryFates.list := by
    intro served
    cases served <;> decide
  have hiff := secrets_delivered_iff hw hreferenced hserved hdelivered hlive
  rw [List.map_singleton, hvalue] at hiff
  refine ⟨w, hw, hiff.2 ⟨?_, by decide⟩⟩
  intro b hb
  obtain rfl := List.mem_singleton.1 hb
  rw [show deliveryBinding.secretVersionID = "ver" from rfl, hgiven]
  decide

-- A value of one byte that no text contains arrives as three others.
theorem binary_value_altered :
    ∃ w, secretSystem.Reachable w ∧ Referenced w.db [deliveryBinding] ∧
      Served w [deliveryBinding] (fun _ => deliverySituation w) "srv" Protocol.sampleToken 1 1 ∧
      w.given (Bytes.ofString "ver") = [0xff] ∧
      materializeSecrets (fun _ => deliverySituation w) "srv" Protocol.sampleToken 1 1 deliveryFates =
        .ok [⟨Bytes.ofString "TOKEN", runtimeText, [0xef, 0xbf, 0xbd]⟩] := by
  have hrun : ((World.initial sampleGeneration).run (deliveryEvents [0xff])).any (fun w => deliveryAnswered [0xff] w &&
      (materializeSecrets (fun _ => deliverySituation w) "srv" Protocol.sampleToken 1 1 deliveryFates).toOption ==
        some [⟨Bytes.ofString "TOKEN", runtimeText, [0xef, 0xbf, 0xbd]⟩]) = true := by decide
  obtain ⟨w, hw, hsample⟩ := World.exists_of_events hrun
  rw [Bool.and_eq_true, beq_iff_eq] at hsample
  obtain ⟨hgiven, hreferenced, hserved⟩ := delivery_served hsample.1
  exact ⟨w, hw, hreferenced, hserved, hgiven, ok_of_toOption hsample.2⟩

end AutoDeploy.Secret
