import AutoDeploy.Protocol.Routes

namespace AutoDeploy.Protocol

open Lib

-- What every reachable state satisfies, whatever the clock says.
structure Inv (v : View) : Prop where
  occupancy : Occupancy v
  pipeline : Pipeline v
  activations : Activations v
  routes : Routes v

variable {now : Nat} {v v' : View} {permitted : Kind → Prop}

theorem Inv.effect {kind : Kind} (h : Inv v) (he : Effect now v kind v') : Inv v' where
  occupancy := h.occupancy.effect he
  pipeline := h.pipeline.effect h.occupancy he
  activations := h.activations.effect h.occupancy h.pipeline (h.routes.headNamed h.pipeline) he
  routes := h.routes.effect h.activations he

theorem Effects.refl : Effects now permitted v v := Relation.ReflTransGen.refl

theorem Effects.of_eq (h : v' = v) : Effects now permitted v v' := by
  rw [h]
  exact Effects.refl

theorem Effects.one {kind : Kind} (hkind : permitted kind) (he : Effect now v kind v') :
    Effects now permitted v v' :=
  Relation.ReflTransGen.single ⟨kind, hkind, he⟩

theorem Effects.trans {v'' : View} (h : Effects now permitted v v') (h' : Effects now permitted v' v'') :
    Effects now permitted v v'' :=
  Relation.ReflTransGen.trans h h'

theorem Effects.mono {more : Kind → Prop} (hmore : ∀ kind, permitted kind → more kind)
    (h : Effects now permitted v v') : Effects now more v v' :=
  Relation.ReflTransGen.mono (fun _ _ ⟨kind, hkind, he⟩ => ⟨kind, hmore kind hkind, he⟩) _ _ h

-- What each effect keeps under the invariant, a whole transaction keeps.
theorem Effects.preserves {P : View → Prop} (h : Effects now permitted v v') (hinv : Inv v) (hP : P v)
    (hstep : ∀ v v' kind, permitted kind → Inv v → P v → Effect now v kind v' → P v') : Inv v' ∧ P v' := by
  refine chain_preserves (P := fun v => Inv v ∧ P v) ?_ h ⟨hinv, hP⟩
  rintro v v' ⟨hinv, hP⟩ ⟨kind, hkind, he⟩
  exact ⟨hinv.effect he, hstep v v' kind hkind hinv hP he⟩

theorem Inv.effects (h : Inv v) (he : Effects now permitted v v') : Inv v' :=
  (he.preserves (P := fun _ => True) h trivial fun _ _ _ _ _ _ _ => trivial).1

end AutoDeploy.Protocol
