import AutoDeploy.Traefik.Confinement

namespace AutoDeploy.Traefik

open Lib Lib.Result Paths Text

-- Any number of writes at once, of the same or of other environments.
def writers (host : Host) (routes : Nat → EnvironmentRoute) : Threads Files Stage Reply :=
  server host fun t => .write (routes t)

def finalPath (host : Host) (environmentID : String) : Path := join host.dir (routeFile (Bytes.ofString environmentID))

-- The turn in which a temporary file takes the place of the route file.
def Renames (c : Config Files Stage) (turn : Nat × Reply) : Prop :=
  turn.2.crashes = false ∧ turn.2.fails = false ∧ ∃ temp previous, c.stage turn.1 = .rename temp previous

-- The turn in which a failed write cannot remove its temporary file.
def RemovalFails (c : Config Files Stage) (turn : Nat × Reply) : Prop :=
  turn.2.fails = true ∧ ∃ temp error, c.stage turn.1 = .cleanup temp error

-- No other write of the same environment takes a turn.
def Alone (routes : Nat → EnvironmentRoute) (t : Nat) (turns : List (Nat × Reply)) : Prop :=
  ∀ turn ∈ turns, (routes turn.1).environmentID = (routes t).environmentID → turn.1 = t

-- A route file as a write that was begun left it: the whole document of its route.
def Installed (host : Host) (routes : Nat → EnvironmentRoute) (c : Config Files Stage) (p : Path) : Prop :=
  ∃ t, c.stage t ≠ .verify ∧ Begun host (.write (routes t)) ∧ p = finalPath host (routes t).environmentID ∧
    c.shared p = some (.file (document (routes t)))

-- The digest that a write reports as the previous one.
def priorDigest : Option Entry → String
  | some (.file content) => digest content
  | _ => ""

section

variable {host : Host}

theorem finalPath_eq (hdir : host.dir ≠ []) {e : String} (he : opaqueName 127 e = true) :
    finalPath host e = (clean host.dir).child (routeFile (Bytes.ofString e)) := by
  refine join_name hdir (slash_notMem_routeFile he) ?_
  simp only [routeFile, List.length_append, length_start]
  omega

theorem tempPath_eq (hdir : host.dir ≠ []) {r : EnvironmentRoute} (hr : opaqueName 127 r.environmentID = true)
    (suffix : Bytes) : Request.tempPath host (.write r) suffix =
      (clean host.dir).child (tempFile (Bytes.ofString r.environmentID) suffix) := by
  refine join_name hdir (slash_notMem_tempFile hr suffix) ?_
  simp only [tempFile, List.length_append, length_start]
  omega

theorem finalPath_injective (hdir : host.dir ≠ []) {e e' : String} (he : opaqueName 127 e = true)
    (he' : opaqueName 127 e' = true) (h : finalPath host e = finalPath host e') : e = e' := by
  rw [finalPath_eq hdir he, finalPath_eq hdir he'] at h
  have hname := (child_injective h).2
  exact Bytes.ofString_injective (List.append_cancel_left (List.append_cancel_right hname))

-- A temporary name is never the name of a route file.
theorem tempPath_ne_finalPath {r : EnvironmentRoute} (hbegun : Begun host (.write r)) {e : String}
    (he : opaqueName 127 e = true) (suffix : Bytes) : Request.tempPath host (.write r) suffix ≠ finalPath host e := by
  intro h
  rw [tempPath_eq hbegun.nonempty (valid_environment (hbegun.valid r rfl)), finalPath_eq hbegun.nonempty he] at h
  have hlength : (Bytes.ofString routeTempFileExtension).length = (Bytes.ofString routeFileExtension).length := by
    decide +kernel
  exact absurd (List.append_inj' (child_injective h).2 hlength).2 (by decide +kernel)

end

namespace Stage

-- The temporary file holds the whole document.
def complete : Stage → Bool
  | .sync _ _ | .close _ _ | .rename _ _ => true
  | _ => false

theorem crash_temp (s : Stage) : s.crash.temp = s.temp := by cases s <;> rfl

theorem crash_complete (s : Stage) : s.crash.complete = false := by cases s <;> rfl

theorem crash_ne_verify (s : Stage) : s.crash ≠ .verify := by cases s <;> simp [crash]

-- Past the check of the directory, and without a temporary file.
def Idle (s : Stage) : Prop := s.temp = none ∧ s.complete = false ∧ s ≠ .verify

end Stage

-- What one call of a write does to the files, and to its hold on a temporary file.
inductive Change (host : Host) (r : EnvironmentRoute) (fs : Files) (a : Reply) (s : Stage) : Files → Stage → Prop
  | keep {s' : Stage} (htemp : s'.temp = s.temp) (hcomplete : s'.complete = true → s.complete = true) :
      Change host r fs a s fs s'
  | create {p : Path} {s' : Stage} (hfree : s.temp = none) (hnone : fs p = none) (htemp : s'.temp = some p)
      (hcomplete : s'.complete = false) : Change host r fs a s (Function.update fs p (some (.file []))) s'
  | fill {p : Path} {content : Bytes} {s' : Stage} (hheld : s.temp = some p) (htemp : s'.temp = some p)
      (hcontent : s'.complete = true → content = document r) :
      Change host r fs a s (Function.update fs p (some (.file content))) s'
  | replace {p : Path} {previous : Option Bytes} (hs : s = .rename p previous) (hcrashes : a.crashes = false)
      (hfails : a.fails = false) :
      Change host r fs a s (Function.update (Function.update fs (finalPath host r.environmentID) (fs p)) p none)
        (.openDir previous)
  | drop {p : Path} {s' : Stage} (hheld : s.temp = some p) (htemp : s'.temp = none) (hcomplete : s'.complete = false) :
      Change host r fs a s (Function.update fs p none) s'

section

variable {host : Host} {r : EnvironmentRoute} {fs : Files} {a : Reply}

theorem afterVerify_idle (req : Request) : (afterVerify host req a).Idle := by
  unfold afterVerify
  repeat' split
  all_goals exact ⟨rfl, rfl, by simp [Stage.fail]⟩

theorem afterStat_idle (req : Request) : (afterStat host req fs a).Idle := by
  unfold afterStat
  repeat' split
  all_goals exact ⟨rfl, rfl, by simp [Stage.fail]⟩

theorem afterRead_idle (req : Request) : (afterRead host req fs a).Idle := by
  unfold afterRead
  repeat' split
  all_goals exact ⟨rfl, rfl, by simp [Stage.fail]⟩

theorem tryCreate_change {s : Stage} (hfree : s.temp = none) (attempts : Nat) (previous : Option Bytes) :
    Change host r fs a s (tryCreate host (.write r) fs a attempts previous).1
      (tryCreate host (.write r) fs a attempts previous).2 := by
  have hstay {s' : Stage} (htemp : s'.temp = none) (hcomplete : s'.complete = false) : Change host r fs a s fs s' :=
    .keep (htemp.trans hfree.symm) fun h => by rw [hcomplete] at h; cases h
  unfold tryCreate
  split
  · exact hstay rfl rfl
  · exact hstay rfl rfl
  · split
    · exact hstay rfl rfl
    · split
      · exact hstay rfl rfl
      · rename_i hnone
        exact .create hfree (by simpa using hnone) rfl rfl

theorem next_change {s : Stage} (h : s.Sound host (.write r)) :
    Change host r fs a s (next host (.write r) fs a s).1 (next host (.write r) fs a s).2 := by
  have hidle {s' : Stage} (hfree : s.temp = none) (htemp : s'.temp = none) (hcomplete : s'.complete = false) :
      Change host r fs a s fs s' :=
    .keep (htemp.trans hfree.symm) fun h => by rw [hcomplete] at h; cases h
  unfold next
  split
  · refine .keep s.crash_temp fun h => ?_
    rw [s.crash_complete] at h
    cases h
  rename_i hcrashes
  cases s with
  | verify =>
      obtain ⟨htemp, hcomplete, -⟩ := afterVerify_idle (.write r)
      exact hidle rfl htemp hcomplete
  | stat =>
      obtain ⟨htemp, hcomplete, -⟩ := afterStat_idle (.write r)
      exact hidle rfl htemp hcomplete
  | read =>
      obtain ⟨htemp, hcomplete, -⟩ := afterRead_idle (.write r)
      exact hidle rfl htemp hcomplete
  | create attempts previous => exact tryCreate_change rfl attempts previous
  | write temp previous =>
      dsimp only
      split
      · exact .fill rfl rfl fun h => by cases h
      · exact .fill rfl rfl fun _ => rfl
  | sync temp previous =>
      dsimp only
      split
      · exact .keep rfl fun _ => rfl
      · exact .keep rfl fun _ => rfl
  | close temp previous =>
      dsimp only
      split
      · exact .keep rfl fun _ => rfl
      · exact .keep rfl fun _ => rfl
  | rename temp previous =>
      dsimp only
      split
      · exact .keep rfl fun _ => rfl
      · rename_i hfails
        exact .replace rfl (Bool.eq_false_iff.2 hcrashes) (Bool.eq_false_iff.2 hfails)
  | openDir previous =>
      dsimp only
      split
      · exact hidle rfl rfl rfl
      · exact hidle rfl rfl rfl
  | syncDir previous =>
      dsimp only
      split
      · exact hidle rfl rfl rfl
      · exact hidle rfl rfl rfl
  | cleanup temp error =>
      dsimp only
      split
      · exact .keep rfl fun h => by cases h
      · exact .drop rfl rfl rfl
  | unlink =>
      obtain ⟨id, hid⟩ := h.removing rfl
      cases hid
  | finished result => exact .keep rfl id
  | crashed renamed leftover => exact .keep rfl id

theorem next_ne_verify (req : Request) (s : Stage) : (next host req fs a s).2 ≠ .verify := by
  unfold next
  split
  · exact s.crash_ne_verify
  cases s with
  | verify => exact (afterVerify_idle req).2.2
  | stat => exact (afterStat_idle req).2.2
  | read => exact (afterRead_idle req).2.2
  | create attempts previous =>
      dsimp only
      unfold tryCreate
      repeat' split
      all_goals simp [Stage.fail]
  | _ =>
      dsimp only
      repeat' split
      all_goals simp [Stage.fail]

end

-- The files between the turns: every difference to the first content is a whole route file, or a temporary file that
-- one write alone has its hands on.
structure Accounted (host : Host) (routes : Nat → EnvironmentRoute) (fs : Files) (c : Config Files Stage) : Prop where
  sound : ∀ t, (c.stage t).Sound host (.write (routes t))
  held : ∀ t p, (c.stage t).temp = some p → fs p = none ∧ c.shared p ≠ none ∧
    ((c.stage t).complete = true → c.shared p = some (.file (document (routes t))))
  exclusive : ∀ t u p, (c.stage t).temp = some p → (c.stage u).temp = some p → t = u
  files : ∀ p, c.shared p = fs p ∨ Installed host routes c p ∨ ∃ t, (c.stage t).temp = some p

namespace Accounted

variable {host : Host} {routes : Nat → EnvironmentRoute} {fs : Files} {c c' : Config Files Stage} {t : Nat} {a : Reply}

theorem start : Accounted host routes fs (start fs) where
  sound _ := .idle rfl rfl
  held t p h := by cases h
  exclusive t u p h := by cases h
  files p := .inl rfl

-- A temporary file is not the route file of any environment.
theorem ne_finalPath (h : Accounted host routes fs c) {p : Path} (hp : (c.stage t).temp = some p) {e : String}
    (he : opaqueName 127 e = true) : p ≠ finalPath host e := by
  obtain ⟨r, suffix, hreq, hbegun, rfl⟩ := (h.sound t).named p hp
  obtain rfl := Request.write.inj hreq
  exact tempPath_ne_finalPath hbegun he suffix

theorem of_temp (h : Accounted host routes fs c) {p : Path} (hp : (c.stage t).temp = some p) :
    Begun host (.write (routes t)) := by
  obtain ⟨r, suffix, hreq, hbegun, -⟩ := (h.sound t).named p hp
  exact hbegun

-- A path that a write finds free was free from the start.
theorem fresh (h : Accounted host routes fs c) {p : Path} (hp : c.shared p = none) : fs p = none := by
  rcases h.files p with hsame | ⟨u, -, -, -, hfile⟩ | ⟨u, hu⟩
  · rw [← hsame, hp]
  · rw [hp] at hfile
    cases hfile
  · exact absurd hp (h.held u p hu).2.1

-- What a turn leaves alone stays accounted for.
theorem unchanged (h : Accounted host routes fs c) (hverify : ∀ u, c.stage u ≠ .verify → c'.stage u ≠ .verify) {p : Path}
    (hp : c'.shared p = c.shared p) (htemp : ∀ u, (c.stage u).temp = some p → (c'.stage u).temp = some p) :
    c'.shared p = fs p ∨ Installed host routes c' p ∨ ∃ u, (c'.stage u).temp = some p := by
  rcases h.files p with hsame | ⟨u, hu, hbegun, hpath, hfile⟩ | ⟨u, hu⟩
  · exact .inl (hp.trans hsame)
  · exact .inr (.inl ⟨u, hverify u hu, hbegun, hpath, hp.trans hfile⟩)
  · exact .inr (.inr ⟨u, htemp u hu⟩)

section

variable (h : Accounted host routes fs c) (hothers : ∀ u, u ≠ t → c'.stage u = c.stage u)
  (hchange : Change host (routes t) c.shared a (c.stage t) c'.shared (c'.stage t))

include h hothers hchange

theorem held_step (u : Nat) (p : Path) (hp : (c'.stage u).temp = some p) : fs p = none ∧ c'.shared p ≠ none ∧
    ((c'.stage u).complete = true → c'.shared p = some (.file (document (routes u)))) := by
  generalize hshared : c'.shared = files at hchange
  generalize hstage : c'.stage t = s at hchange
  by_cases hu : u = t
  · subst hu
    rw [hstage] at hp ⊢
    cases hchange with
    | keep htemp hcomplete =>
        rw [htemp] at hp
        obtain ⟨hfirst, hthere, hfull⟩ := h.held u p hp
        exact ⟨hfirst, hthere, fun hs => hfull (hcomplete hs)⟩
    | create hfree hnone htemp hcomplete =>
        obtain rfl := Option.some.inj (htemp.symm.trans hp)
        rw [Function.update_self]
        refine ⟨h.fresh hnone, by simp, fun hs => ?_⟩
        rw [hcomplete] at hs
        cases hs
    | fill hheld htemp hcontent =>
        obtain rfl := Option.some.inj (htemp.symm.trans hp)
        rw [Function.update_self]
        exact ⟨(h.held u _ hheld).1, by simp, fun hs => by rw [hcontent hs]⟩
    | replace hs hcrashes hfails => cases hp
    | drop hheld htemp hcomplete =>
        rw [htemp] at hp
        cases hp
  · rw [hothers u hu] at hp ⊢
    have hold := h.held u p hp
    -- the turn is not about this file
    have hapart {q : Path} (hq : (c.stage t).temp = some q) : p ≠ q := by
      rintro rfl
      exact hu (h.exclusive u t p hp hq)
    cases hchange with
    | keep htemp hcomplete => exact hold
    | create hfree hnone htemp hcomplete =>
        rename_i q
        have hne : p ≠ q := by
          rintro rfl
          exact hold.2.1 hnone
        rw [Function.update_of_ne hne]
        exact hold
    | fill hheld htemp hcontent =>
        rw [Function.update_of_ne (hapart hheld)]
        exact hold
    | @replace q previous hs hcrashes hfails =>
        have hheld : (c.stage t).temp = some q := by rw [hs]; rfl
        have hbegun := h.of_temp hheld
        rw [Function.update_of_ne (hapart hheld),
          Function.update_of_ne (h.ne_finalPath hp (valid_environment (hbegun.valid _ rfl)))]
        exact hold
    | drop hheld htemp hcomplete =>
        rw [Function.update_of_ne (hapart hheld)]
        exact hold

theorem exclusive_step (u v : Nat) (p : Path) (hu : (c'.stage u).temp = some p) (hv : (c'.stage v).temp = some p) :
    u = v := by
  -- whoever holds a file held it before, or it was free
  have hbefore (w : Nat) (hw : (c'.stage w).temp = some p) :
      (c.stage w).temp = some p ∨ (w = t ∧ c.shared p = none) := by
    by_cases hwt : w = t
    · subst hwt
      generalize c'.shared = files at hchange
      generalize c'.stage w = s at hchange hw
      cases hchange with
      | keep htemp hcomplete => exact .inl (htemp ▸ hw)
      | create hfree hnone htemp hcomplete =>
          obtain rfl := Option.some.inj (htemp.symm.trans hw)
          exact .inr ⟨rfl, hnone⟩
      | fill hheld htemp hcontent =>
          obtain rfl := Option.some.inj (htemp.symm.trans hw)
          exact .inl hheld
      | replace hs hcrashes hfails => cases hw
      | drop hheld htemp hcomplete =>
          rw [htemp] at hw
          cases hw
    · rw [hothers w hwt] at hw
      exact .inl hw
  rcases hbefore u hu with hu | ⟨rfl, hnone⟩
  · rcases hbefore v hv with hv | ⟨rfl, hnone⟩
    · exact h.exclusive u v p hu hv
    · exact absurd hnone (h.held u p hu).2.1
  · rcases hbefore v hv with hv | ⟨rfl, -⟩
    · exact absurd hnone (h.held v p hv).2.1
    · rfl

theorem files_step (hverify : ∀ u, c.stage u ≠ .verify → c'.stage u ≠ .verify) (p : Path) :
    c'.shared p = fs p ∨ Installed host routes c' p ∨ ∃ u, (c'.stage u).temp = some p := by
  -- the hold of the other writes is as before
  have hkept {q : Path} (hq : (c.stage t).temp ≠ some q) (u : Nat) (hu : (c.stage u).temp = some q) :
      (c'.stage u).temp = some q := by
    by_cases hut : u = t
    · subst hut
      exact absurd hu hq
    · rwa [hothers u hut]
  obtain ⟨files, hshared⟩ : ∃ files, c'.shared = files := ⟨_, rfl⟩
  obtain ⟨s, hstage⟩ : ∃ s, c'.stage t = s := ⟨_, rfl⟩
  rw [hshared, hstage] at hchange
  cases hchange with
  | keep htemp hcomplete =>
      refine h.unchanged hverify (congrFun hshared p) fun u hu => ?_
      by_cases hut : u = t
      · subst hut
        rwa [hstage, htemp]
      · rwa [hothers u hut]
  | @create q s' hfree hnone htemp hcomplete =>
      by_cases hp : p = q
      · subst hp
        exact .inr (.inr ⟨t, hstage ▸ htemp⟩)
      · refine h.unchanged hverify ?_ (hkept ?_)
        · rw [hshared, Function.update_of_ne hp]
        · rw [hfree]
          exact nofun
  | @fill q content s' hheld htemp hcontent =>
      by_cases hp : p = q
      · subst hp
        exact .inr (.inr ⟨t, hstage ▸ htemp⟩)
      · refine h.unchanged hverify ?_ (hkept ?_)
        · rw [hshared, Function.update_of_ne hp]
        · rw [hheld]
          exact fun heq => hp (Option.some.inj heq).symm
  | @replace q previous hs hcrashes hfails =>
      have hheld : (c.stage t).temp = some q := by rw [hs]; rfl
      have hbegun := h.of_temp hheld
      by_cases hp : p = q
      · subst hp
        refine .inl ?_
        rw [hshared, Function.update_self, (h.held t p hheld).1]
      by_cases hfinal : p = finalPath host (routes t).environmentID
      · refine .inr (.inl ⟨t, ?_, hbegun, hfinal, ?_⟩)
        · rw [hstage]
          simp
        · rw [hshared, Function.update_of_ne hp, hfinal, Function.update_self]
          exact (h.held t q hheld).2.2 (by rw [hs]; rfl)
      · refine h.unchanged hverify ?_ (hkept ?_)
        · rw [hshared, Function.update_of_ne hp, Function.update_of_ne hfinal]
        · rw [hheld]
          exact fun heq => hp (Option.some.inj heq).symm
  | @drop q s' hheld htemp hcomplete =>
      by_cases hp : p = q
      · subst hp
        refine .inl ?_
        rw [hshared, Function.update_self, (h.held t p hheld).1]
      · refine h.unchanged hverify ?_ (hkept ?_)
        · rw [hshared, Function.update_of_ne hp]
        · rw [hheld]
          exact fun heq => hp (Option.some.inj heq).symm

-- A route file changes only when the temporary file of a write of its environment takes its place.
omit hothers in
theorem change_of_finalPath {e : String} (hsound : (c'.stage t).Sound host (.write (routes t)))
    (he : opaqueName 127 e = true) (hne : c'.shared (finalPath host e) ≠ c.shared (finalPath host e)) :
    Renames c (t, a) ∧ (routes t).environmentID = e ∧
      c'.shared (finalPath host e) = some (.file (document (routes t))) := by
  have haway {q : Path} (hq : (c.stage t).temp = some q) : finalPath host e ≠ q := (h.ne_finalPath hq he).symm
  generalize hshared : c'.shared = files at hchange hne
  generalize hstage : c'.stage t = s at hchange hsound
  cases hchange with
  | keep htemp hcomplete => exact absurd rfl hne
  | @create q s' hfree hnone htemp hcomplete =>
      obtain ⟨r, suffix, hreq, hbegun, rfl⟩ := hsound.named q htemp
      obtain rfl := Request.write.inj hreq
      rw [Function.update_of_ne (tempPath_ne_finalPath hbegun he suffix).symm] at hne
      exact absurd rfl hne
  | fill hheld htemp hcontent =>
      rw [Function.update_of_ne (haway hheld)] at hne
      exact absurd rfl hne
  | @replace q previous hs hcrashes hfails =>
      have hheld : (c.stage t).temp = some q := by rw [hs]; rfl
      have hbegun := h.of_temp hheld
      rw [Function.update_of_ne (haway hheld)] at hne
      by_cases hsame : finalPath host e = finalPath host (routes t).environmentID
      · have hvalid := valid_environment (hbegun.valid _ rfl)
        obtain rfl := finalPath_injective hbegun.nonempty he hvalid hsame
        refine ⟨⟨hcrashes, hfails, q, previous, hs⟩, rfl, ?_⟩
        rw [Function.update_of_ne (haway hheld), Function.update_self]
        exact (h.held t q hheld).2.2 (by rw [hs]; rfl)
      · rw [Function.update_of_ne hsame] at hne
        exact absurd rfl hne
  | drop hheld htemp hcomplete =>
      rw [Function.update_of_ne (haway hheld)] at hne
      exact absurd rfl hne

end

-- One turn of one of the writes.
theorem turn_change (h : Accounted host routes fs c) (turn : Nat × Reply) :
    Change host (routes turn.1) c.shared turn.2 (c.stage turn.1) ((writers host routes).step c turn).shared
      (((writers host routes).step c turn).stage turn.1) := by
  rw [Threads.step_stage_self]
  exact next_change (h.sound turn.1)

theorem turn_sound (h : Accounted host routes fs c) (turn : Nat × Reply) (u : Nat) :
    (((writers host routes).step c turn).stage u).Sound host (.write (routes u)) := by
  by_cases hu : u = turn.1
  · subst hu
    rw [Threads.step_stage_self]
    exact next_sound (h.sound turn.1)
  · rw [Threads.step_stage_of_ne hu]
    exact h.sound u

theorem step (h : Accounted host routes fs c) (turn : Nat × Reply) :
    Accounted host routes fs ((writers host routes).step c turn) := by
  have hothers (u : Nat) (hu : u ≠ turn.1) : ((writers host routes).step c turn).stage u = c.stage u :=
    Threads.step_stage_of_ne hu
  have hverify (u : Nat) (hstage : c.stage u ≠ .verify) : ((writers host routes).step c turn).stage u ≠ .verify := by
    by_cases hu : u = turn.1
    · subst hu
      rw [Threads.step_stage_self]
      exact next_ne_verify _ _
    · rwa [Threads.step_stage_of_ne hu]
  have hchange := h.turn_change turn
  exact ⟨h.turn_sound turn, h.held_step hothers hchange, h.exclusive_step hothers hchange,
    h.files_step hothers hchange hverify⟩

theorem turn_finalPath (h : Accounted host routes fs c) (turn : Nat × Reply) {e : String} (he : opaqueName 127 e = true)
    (hne : ((writers host routes).step c turn).shared (finalPath host e) ≠ c.shared (finalPath host e)) :
    Renames c turn ∧ (routes turn.1).environmentID = e ∧
      ((writers host routes).step c turn).shared (finalPath host e) = some (.file (document (routes turn.1))) :=
  h.change_of_finalPath (h.turn_change turn) (h.turn_sound turn turn.1) he hne

theorem run (h : Accounted host routes fs c) (turns : List (Nat × Reply)) :
    Accounted host routes fs ((writers host routes).run c turns) :=
  Threads.run_invariant (fun _ turn hc _ => hc.step turn) (Threads.allows_true turns) h

end Accounted

namespace Stage

-- What a write knows of the route file when no other write of the environment takes turns: before the rename it is
-- as the write found it, and afterwards it is the write's own document.
def Faithful (doc : Bytes) (prior now : Option Entry) : Stage → Prop
  | .verify | .stat | .read | .cleanup _ _ | .unlink => now = prior
  | .create _ previous | .write _ previous | .sync _ previous | .close _ previous | .rename _ previous =>
      now = prior ∧ prior = previous.map .file
  | .openDir previous | .syncDir previous => now = some (.file doc) ∧ prior = previous.map .file
  | .finished (.wrote result) =>
      result.digest = digest doc ∧ result.previousDigest = priorDigest prior ∧
        (now = some (.file doc) ∨ now = prior ∧ ∃ content, prior = some (.file content) ∧ digest content = digest doc)
  | .finished (.failed _ renamed _) | .crashed renamed _ => renamed = false → now = prior
  | .finished _ => now = prior

theorem Faithful.crash {doc : Bytes} {prior now : Option Entry} {s : Stage} (h : s.Faithful doc prior now) :
    s.crash.Faithful doc prior now := by
  cases s with
  | finished result => exact h
  | crashed renamed leftover => exact h
  | create attempts previous => exact fun _ => h.1
  | write temp previous => exact fun _ => h.1
  | sync temp previous => exact fun _ => h.1
  | close temp previous => exact fun _ => h.1
  | rename temp previous => exact fun _ => h.1
  | openDir previous => exact fun hrenamed => by cases hrenamed
  | syncDir previous => exact fun hrenamed => by cases hrenamed
  | _ => exact fun _ => h

theorem Faithful.failed {doc : Bytes} {prior now : Option Entry} {error : FileError} {leftover : Option Path}
    (h : now = prior) : (Stage.finished (.failed error false leftover)).Faithful doc prior now := fun _ => h

end Stage

theorem previousDigest_eq (previous : Option Bytes) : previousDigest previous = priorDigest (previous.map .file) := by
  cases previous with
  | none => rfl
  | some content => rfl

section

variable {host : Host} {r : EnvironmentRoute} {fs : Files} {a : Reply} {prior : Option Entry}

theorem afterVerify_faithful (h : fs (finalPath host r.environmentID) = prior) :
    (afterVerify host (.write r) a).Faithful (document r) prior (fs (finalPath host r.environmentID)) := by
  unfold afterVerify
  split
  · exact .failed h
  · dsimp only
    split
    · exact .failed h
    · exact h

theorem afterStat_faithful (h : fs (finalPath host r.environmentID) = prior) :
    (afterStat host (.write r) fs a).Faithful (document r) prior (fs (finalPath host r.environmentID)) := by
  unfold afterStat
  split
  · exact .failed h
  · split
    · rename_i hnone hreq
      have hfile : fs (finalPath host r.environmentID) = none := hnone
      exact ⟨h, h.symm.trans hfile⟩
    · rename_i hreq
      cases hreq
    · rename_i hreq
      cases hreq
    · exact .failed h
    · exact .failed h
    · rename_i hreq
      cases hreq
    · exact h

theorem afterRead_faithful (h : fs (finalPath host r.environmentID) = prior) :
    (afterRead host (.write r) fs a).Faithful (document r) prior (fs (finalPath host r.environmentID)) := by
  unfold afterRead
  split
  · exact .failed h
  split
  · exact .failed h
  · exact .failed h
  · exact .failed h
  · rename_i content hcontent
    have hfile : fs (finalPath host r.environmentID) = some (.file content) := hcontent
    have hprior : prior = some (.file content) := h.symm.trans hfile
    split
    · exact .failed h
    · dsimp only
      split
      · rename_i hdigest
        exact ⟨rfl, by rw [hprior]; rfl, .inr ⟨h, content, hprior, hdigest⟩⟩
      · exact ⟨h, hprior⟩

end

namespace Accounted

variable {host : Host} {routes : Nat → EnvironmentRoute} {fs : Files} {c : Config Files Stage} {t : Nat} {a : Reply}
  {prior : Option Entry}

-- Only the rename of a write changes its route file.
theorem finalPath_kept (h : Accounted host routes fs c) (hnot : ∀ temp previous, c.stage t ≠ .rename temp previous) :
    (next host (.write (routes t)) c.shared a (c.stage t)).1 (finalPath host (routes t).environmentID) =
      c.shared (finalPath host (routes t).environmentID) := by
  by_cases hadmitted : (c.stage t).admitted = true
  · have he := valid_environment (((h.sound t).begun hadmitted).valid _ rfl)
    by_contra hne
    obtain ⟨⟨-, -, temp, previous, hrename⟩, -⟩ := h.turn_finalPath (t, a) he hne
    exact hnot temp previous hrename
  · cases hstage : c.stage t with
    | verify =>
        unfold next
        split <;> rfl
    | finished result =>
        unfold next
        split <;> rfl
    | crashed renamed leftover =>
        unfold next
        split <;> rfl
    | _ =>
        rw [hstage] at hadmitted
        exact absurd rfl hadmitted

theorem faithful_rename (h : Accounted host routes fs c) {temp : Path} {previous : Option Bytes}
    (hstage : c.stage t = .rename temp previous)
    (hs : (c.stage t).Faithful (document (routes t)) prior (c.shared (finalPath host (routes t).environmentID))) :
    (next host (.write (routes t)) c.shared a (c.stage t)).2.Faithful (document (routes t)) prior
      ((next host (.write (routes t)) c.shared a (c.stage t)).1 (finalPath host (routes t).environmentID)) := by
  have hheld : (c.stage t).temp = some temp := by rw [hstage]; rfl
  have hvalid := valid_environment ((h.of_temp hheld).valid _ rfl)
  have hne := (h.ne_finalPath hheld hvalid).symm
  have hfull := (h.held t temp hheld).2.2 (by rw [hstage]; rfl)
  rw [hstage] at hs ⊢
  unfold next
  split
  · exact fun _ => hs.1
  dsimp only
  split
  · exact hs.1
  · refine ⟨?_, hs.2⟩
    exact (Function.update_of_ne hne ..).trans ((Function.update_self ..).trans hfull)

-- A write's own turn.
theorem faithful_next (h : Accounted host routes fs c)
    (hs : (c.stage t).Faithful (document (routes t)) prior (c.shared (finalPath host (routes t).environmentID))) :
    (next host (.write (routes t)) c.shared a (c.stage t)).2.Faithful (document (routes t)) prior
      ((next host (.write (routes t)) c.shared a (c.stage t)).1 (finalPath host (routes t).environmentID)) := by
  by_cases hrename : ∃ temp previous, c.stage t = .rename temp previous
  · obtain ⟨temp, previous, hstage⟩ := hrename
    exact h.faithful_rename hstage hs
  rw [h.finalPath_kept fun temp previous hstage => hrename ⟨temp, previous, hstage⟩]
  have hremoving := (h.sound t).removing
  generalize c.stage t = s at hs hrename hremoving ⊢
  unfold next
  split
  · exact hs.crash
  cases s with
  | verify => exact afterVerify_faithful hs
  | stat => exact afterStat_faithful hs
  | read => exact afterRead_faithful hs
  | create attempts previous =>
      dsimp only
      unfold tryCreate
      split
      · exact .failed hs.1
      · exact .failed hs.1
      · split
        · exact .failed hs.1
        · split
          · exact hs
          · exact hs
  | write temp previous =>
      dsimp only
      split
      · exact hs.1
      · exact hs
  | sync temp previous =>
      dsimp only
      split
      · exact hs.1
      · exact hs
  | close temp previous =>
      dsimp only
      split
      · exact hs.1
      · exact hs
  | rename temp previous => exact absurd ⟨temp, previous, rfl⟩ hrename
  | openDir previous =>
      dsimp only
      split
      · exact fun hrenamed => by cases hrenamed
      · exact hs
  | syncDir previous =>
      dsimp only
      split
      · exact fun hrenamed => by cases hrenamed
      · exact ⟨rfl, (previousDigest_eq previous).trans (by rw [hs.2]), .inl hs.1⟩
  | cleanup temp error =>
      dsimp only
      split
      · exact .failed hs
      · exact .failed hs
  | unlink =>
      obtain ⟨id, hid⟩ := hremoving rfl
      cases hid
  | finished result => exact hs
  | crashed renamed leftover => exact hs

-- A turn of another environment's write, or the write's own.
theorem faithful_step (h : Accounted host routes fs c) (he : opaqueName 127 (routes t).environmentID = true)
    {turn : Nat × Reply} (halone : (routes turn.1).environmentID = (routes t).environmentID → turn.1 = t)
    (hs : (c.stage t).Faithful (document (routes t)) prior (c.shared (finalPath host (routes t).environmentID))) :
    (((writers host routes).step c turn).stage t).Faithful (document (routes t)) prior
      (((writers host routes).step c turn).shared (finalPath host (routes t).environmentID)) := by
  by_cases hturn : t = turn.1
  · subst hturn
    rw [Threads.step_stage_self]
    exact h.faithful_next hs
  · have hkept : ((writers host routes).step c turn).shared (finalPath host (routes t).environmentID) =
        c.shared (finalPath host (routes t).environmentID) := by
      by_contra hne
      obtain ⟨-, hsame, -⟩ := h.turn_finalPath turn he hne
      exact hturn (halone hsame).symm
    rw [Threads.step_stage_of_ne hturn, hkept]
    exact hs

theorem faithful_run (h : Accounted host routes fs c) (he : opaqueName 127 (routes t).environmentID = true)
    {during : List (Nat × Reply)} (halone : Alone routes t during)
    (hs : (c.stage t).Faithful (document (routes t)) prior (c.shared (finalPath host (routes t).environmentID))) :
    (((writers host routes).run c during).stage t).Faithful (document (routes t)) prior
      (((writers host routes).run c during).shared (finalPath host (routes t).environmentID)) := by
  refine (Threads.run_invariant (I := fun c => Accounted host routes fs c ∧
    (c.stage t).Faithful (document (routes t)) prior (c.shared (finalPath host (routes t).environmentID))) ?_
    (Threads.allows_of_forall halone) ⟨h, hs⟩).2
  rintro c turn ⟨hc, hs⟩ hturn
  exact ⟨hc.step turn, hc.faithful_step he hturn hs⟩

end Accounted

-- A write that has not come to a temporary file it could not remove.
def Stage.Tidy (s : Stage) : Prop := ∀ error renamed leftover, s = .finished (.failed error renamed leftover) → leftover = none

theorem Stage.tidy_of_temp {s : Stage} (h : s.temp = none) : s.Tidy := by
  rintro error renamed leftover rfl
  exact h

theorem next_tidy {host : Host} {req : Request} {fs : Files} {a : Reply} {s : Stage} (h : s.Tidy)
    (hremoval : a.fails = true → ∀ temp error, s ≠ .cleanup temp error) : (next host req fs a s).2.Tidy := by
  unfold next
  split
  · cases s with
    | finished result => exact h
    | _ => exact fun error renamed leftover hs => by cases hs
  cases s with
  | verify => exact Stage.tidy_of_temp (afterVerify_idle req).1
  | stat => exact Stage.tidy_of_temp (afterStat_idle req).1
  | read => exact Stage.tidy_of_temp (afterRead_idle req).1
  | create attempts previous =>
      dsimp only
      unfold tryCreate
      repeat' split
      all_goals first | exact Stage.tidy_of_temp rfl | exact fun error renamed leftover hs => by cases hs
  | cleanup temp error =>
      dsimp only
      split
      · rename_i hfails
        exact absurd rfl (hremoval hfails temp error)
      · exact Stage.tidy_of_temp rfl
  | finished result => exact h
  | crashed renamed leftover => exact h
  | _ =>
      dsimp only
      repeat' split
      all_goals first | exact Stage.tidy_of_temp rfl | exact fun error renamed leftover hs => by cases hs

theorem render_document {r : EnvironmentRoute} (h : r.validate = .ok ()) :
    render r = .ok (document r, digest (document r)) := by
  have hrender := render_eq h
  have hdocument : document r = Bytes.ofString (documentText r) := by rw [document, hrender]
  rw [hrender, hdocument]

-- The content found and the document do not happen to have the same digest.
def NoCollision (prior : Option Entry) (doc : Bytes) : Prop :=
  ∀ content, prior = some (.file content) → digest content = digest doc → content = doc

namespace Accounted

variable {host : Host} {routes : Nat → EnvironmentRoute} {fs : Files} {c : Config Files Stage} {t : Nat}

theorem whole (h : Accounted host routes fs c) {e : String} (he : opaqueName 127 e = true) :
    c.shared (finalPath host e) = fs (finalPath host e) ∨
      ∃ t doc text, c.stage t ≠ .verify ∧ (routes t).environmentID = e ∧ render (routes t) = .ok (doc, text) ∧
        c.shared (finalPath host e) = some (.file doc) := by
  rcases h.files (finalPath host e) with hsame | ⟨u, hstage, hbegun, hpath, hfile⟩ | ⟨u, hu⟩
  · exact .inl hsame
  · have hvalid := hbegun.valid _ rfl
    have hsame := finalPath_injective hbegun.nonempty he (valid_environment hvalid) hpath
    exact .inr ⟨u, _, _, hstage, hsame.symm, render_document hvalid, hfile⟩
  · exact absurd rfl (h.ne_finalPath hu he)

theorem settled (h : Accounted host routes fs c) {prior now : Option Entry} {result : WriteResult}
    (hstage : c.stage t = .finished (.wrote result)) (hs : (c.stage t).Faithful (document (routes t)) prior now) :
    render (routes t) = .ok (document (routes t), result.digest) ∧ result.previousDigest = priorDigest prior ∧
      (NoCollision prior (document (routes t)) → now = some (.file (document (routes t)))) := by
  have hbegun := (h.sound t).begun (by rw [hstage]; rfl)
  rw [hstage] at hs
  obtain ⟨hdigest, hprevious, hnow⟩ := hs
  refine ⟨?_, hprevious, fun hcollision => ?_⟩
  · rw [hdigest]
    exact render_document (hbegun.valid _ rfl)
  · rcases hnow with hnow | ⟨hnow, content, hcontent, hsame⟩
    · exact hnow
    · rw [hnow, hcontent, hcollision content hcontent hsame]

-- What a write without a temporary file of its own has not left behind.
theorem nothing_left (h : Accounted host routes fs c) (htemp : (c.stage t).temp = none) {p : Path}
    (hp : c.shared p ≠ fs p) : Installed host routes c p ∨ ∃ u, u ≠ t ∧ (c.stage u).temp = some p := by
  rcases h.files p with hsame | hinstalled | ⟨u, hu⟩
  · exact absurd hsame hp
  · exact .inl hinstalled
  · refine .inr ⟨u, ?_, hu⟩
    rintro rfl
    rw [htemp] at hu
    cases hu

end Accounted

theorem tidy_run {host : Host} {routes : Nat → EnvironmentRoute} {c : Config Files Stage} {t : Nat}
    {during : List (Nat × Reply)}
    (hremoval : (writers host routes).Allows (fun c turn => turn.1 = t → ¬ RemovalFails c turn) c during)
    (h : (c.stage t).Tidy) : (((writers host routes).run c during).stage t).Tidy := by
  refine Threads.run_invariant (I := fun c => (c.stage t).Tidy) ?_ hremoval h
  intro c turn hs hturn
  by_cases ht : t = turn.1
  · subst ht
    rw [Threads.step_stage_self]
    exact next_tidy hs fun hfails temp error hstage => hturn rfl ⟨hfails, temp, error, hstage⟩
  · rwa [Threads.step_stage_of_ne ht]

-- Any number of writes, from any files and with any failures and crashes. A route file holds its first content or the
-- whole document of a write of its environment, and it changes only in the rename of such a write. A write that
-- succeeds while it is the only one of its environment leaves its own document and reports the digests before and
-- after; one that fails or crashes before the rename leaves the file as it was. One that fails, and whose removals do
-- not fail, has left nothing else: any other new file is of a write that goes on, has crashed or could not remove it.
theorem route_files_replaced (host : Host) (routes : Nat → EnvironmentRoute) (fs : Files) (turns : List (Nat × Reply)) :
    let c := (writers host routes).run (start fs) turns
    (∀ e, opaqueName 127 e = true →
      c.shared (finalPath host e) = fs (finalPath host e) ∨
        ∃ t doc text, c.stage t ≠ .verify ∧ (routes t).environmentID = e ∧ render (routes t) = .ok (doc, text) ∧
          c.shared (finalPath host e) = some (.file doc)) ∧
    (∀ turn e, opaqueName 127 e = true →
      ((writers host routes).step c turn).shared (finalPath host e) ≠ c.shared (finalPath host e) →
        Renames c turn ∧ (routes turn.1).environmentID = e) ∧
    (∀ t during, opaqueName 127 (routes t).environmentID = true → c.stage t = .verify → Alone routes t during →
      let c' := (writers host routes).run c during
      let prior := c.shared (finalPath host (routes t).environmentID)
      let now := c'.shared (finalPath host (routes t).environmentID)
      (∀ result, c'.stage t = .finished (.wrote result) →
        render (routes t) = .ok (document (routes t), result.digest) ∧ result.previousDigest = priorDigest prior ∧
          (NoCollision prior (document (routes t)) → now = some (.file (document (routes t))))) ∧
      (∀ error leftover, c'.stage t = .finished (.failed error false leftover) → now = prior) ∧
      (∀ leftover, c'.stage t = .crashed false leftover → now = prior)) ∧
    (∀ t during error renamed leftover, c.stage t = .verify →
      (writers host routes).Allows (fun c turn => turn.1 = t → ¬ RemovalFails c turn) c during →
      let c' := (writers host routes).run c during
      c'.stage t = .finished (.failed error renamed leftover) →
        ∀ p, c'.shared p ≠ fs p → Installed host routes c' p ∨ ∃ u, u ≠ t ∧ (c'.stage u).temp = some p) := by
  intro c
  have h : Accounted host routes fs c := Accounted.start.run turns
  refine ⟨fun e he => h.whole he, fun turn e he hne => ?_, fun t during he hverify halone => ?_,
    fun t during error renamed leftover hverify hremoval => ?_⟩
  · obtain ⟨hrenames, henvironment, -⟩ := h.turn_finalPath turn he hne
    exact ⟨hrenames, henvironment⟩
  · have hfaithful := h.faithful_run he halone (by rw [hverify]; rfl)
    refine ⟨fun result hstage => (h.run during).settled hstage hfaithful, fun error leftover hstage => ?_,
      fun leftover hstage => ?_⟩
    · rw [hstage] at hfaithful
      exact hfaithful rfl
    · rw [hstage] at hfaithful
      exact hfaithful rfl
  · intro c' hstage p hp
    have htidy : (c'.stage t).Tidy := tidy_run hremoval (by rw [hverify]; exact Stage.tidy_of_temp rfl)
    have htemp : (c'.stage t).temp = none := by
      rw [hstage]
      exact htidy error renamed leftover hstage
    exact (h.run during).nothing_left htemp hp

-- The next call succeeds, or it fails.
def answered (fails : Bool) : Reply := ⟨false, fails, 0, some [0xab], ⟨.directory, 1000, 0o750⟩⟩

def webRoute : EnvironmentRoute := plainRoute "web" "1" "1"

-- A write from an empty directory to its end.
def wholeWrite : List (Nat × Reply) := List.replicate 9 (0, answered false)

-- The write to the temporary file fails, and then its removal does.
def failedWrite : List (Nat × Reply) := List.replicate 3 (0, answered false) ++ List.replicate 2 (0, answered true)

theorem route_files_replaced_whole_write :
    ((writers srvRoutes fun _ => webRoute).run (start fun _ => none) wholeWrite).shared (finalPath srvRoutes "web") =
      some (.file (document webRoute)) := by
  have hreplaced := (route_files_replaced srvRoutes (fun _ => webRoute) (fun _ => none) []).2.2.1 0 wholeWrite
    (by decide) rfl (fun turn hturn _ => by rw [List.eq_of_mem_replicate hturn])
  exact (hreplaced.1 ⟨.written, digest (document webRoute), ""⟩ rfl).2.2 fun content hcontent => by cases hcontent

-- A failed write that did not crash, and its temporary file is still there.
theorem temporary_file_left : ¬ ∀ host routes fs turns t error leftover suffix,
    let c := (writers host routes).run (start fs) turns
    c.stage t = .finished (.failed error false leftover) →
      c.shared (Request.tempPath host (.write (routes t)) suffix) = fs (Request.tempPath host (.write (routes t)) suffix) := by
  intro h
  have hleft := h srvRoutes (fun _ => webRoute) (fun _ => none) failedWrite 0 (.system "write temp route file")
    (some (Request.tempPath srvRoutes (.write webRoute) [0xab])) [0xab] (by decide +kernel)
  exact absurd hleft (by decide +kernel)

end AutoDeploy.Traefik
