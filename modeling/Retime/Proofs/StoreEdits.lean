import Retime.Proofs.PairEdits
import Retime.Store.Edit

/-!
# What Edits of the Store Leave

Where the pairs of a store come from, one edit later.

There are many edits of a store and a few things that can happen to a pair:
it is kept, its crop or its options are set, its map or its moves change, it
is new, or it was parked and is brought back. `Origin` lists them, with what
each says about the crop and the play time of the pair, and `Step` adds what
becomes of the parked pairs and of the two frame rates. That every edit is
such a step is proved once, here. What is said elsewhere about all pairs in
all states of a store is then a matter of these few cases.

An edit that is refused is no step at all: it leaves the store as it was. For
most edits this is so because they ask first. The speed of all pairs is the one
edit that could be refused half way, and it is not, as a speed that no pair
takes is refused before the first pair.

## Main definitions

* `Store.Origin`: Where a pair of a store comes from.
* `Store.Step`: What one edit makes of a store.
* `Event`, `Project.run`: A session of edits and other choices of settings.

## Theorems

* `Store.onPair_stepping`: An edit of one pair is a step.
* `Project.edit_comes_out`: An edit is a step, or leaves the session as it was.
* `Project.edit_atomic`: A refused edit leaves the session as it was.
* `Project.after_edit`: The same of the edits in a session.
-/

namespace Retime

namespace Pair

variable {α : Type} [Scalar α]

/-- A pair that differs from another in its map and its moves at most. -/
def Remapped (p q : Pair α) : Prop :=
  q = { p with map := q.map, moves := q.moves }

theorem move_remapped {p q : Pair α} {side : Side} {time : α} (h : p.move side time = .ok q) :
    p.Remapped q := by
  rcases move_eq_ok h with ⟨-, rfl⟩
  rfl

theorem setSpeed_remapped {p q : Pair α} {speed : α} (h : p.setSpeed speed = .ok q) :
    p.Remapped q := by
  rcases setSpeed_eq_ok h with ⟨m, -, rfl⟩
  rfl

theorem replaceMap_remapped {p q : Pair α} {map : SpeedMap α} (h : p.replaceMap map = .ok q) :
    p.Remapped q := by
  rcases replaceMap_eq_ok h with ⟨-, rfl⟩
  rfl

theorem takeBack_remapped {p q : Pair α} {side : Option Side} (h : p.takeBack = .ok side q) :
    p.Remapped q ∧ (side = none → q = p) := by
  cases hundo : p.moves.undo with
  | nil => rw [takeBack_nil hundo] at h; cases h; exact ⟨rfl, fun _ => rfl⟩
  | cons r rs =>
      rw [takeBack_eq hundo] at h
      cases hm : p.map.restoreBoundary r.side r.source r.dropped with
      | error cause => rw [hm] at h; cases h
      | ok m => rw [hm] at h; cases h; exact ⟨rfl, fun hc => nomatch hc⟩

theorem makeAgain_remapped {p q : Pair α} {side : Option Side} (h : p.makeAgain = .ok side q) :
    p.Remapped q ∧ (side = none → q = p) := by
  cases hredo : p.moves.redo with
  | nil => rw [makeAgain_nil hredo] at h; cases h; exact ⟨rfl, fun _ => rfl⟩
  | cons r rs =>
      rw [makeAgain_eq hredo] at h
      cases hm : p.map.moveBoundary r.side r.target with
      | error cause => rw [hm] at h; cases h
      | ok moved => rw [hm] at h; cases h; exact ⟨rfl, fun hc => nomatch hc⟩

end Pair

namespace Store

variable {α : Type}

theorem pair_eq_ok {s : Store α} {index : Nat} {p : Pair α} (h : s.pair index = .ok p) :
    s.pairs[index]? = some p := by
  unfold pair at h
  cases hp : s.pairs[index]? with
  | none => rw [hp] at h; cases h
  | some q => rw [hp] at h; cases h; rfl

theorem replace_self {s : Store α} {index : Nat} {p : Pair α} (h : s.pair index = .ok p) :
    s.replace index p = s := by
  rcases List.getElem?_eq_some_iff.mp (pair_eq_ok h) with ⟨hlt, rfl⟩
  rw [replace, List.set_getElem_self]

theorem marking_eq_ok {σ β : Type} {r : Except (MarkerError α) β} {s t : σ} {b : β}
    (h : marking r s = .ok b t) : r = .ok b ∧ t = s := by
  rcases InPlace.demand_eq_ok.mp h with ⟨hr, ht⟩
  cases r with
  | error cause => cases hr
  | ok b' => exact ⟨congrArg Except.ok (Except.ok.inj hr), ht⟩

variable [Scalar α]

/-- Where a pair of the store `t` comes from, which was made of `s` by one
    edit. The edit counts crops in the resolution `r`, and brings the pair
    `back` back, if any. -/
inductive Origin (r : Resolution) (back : Option (Pair α)) (s t : Store α) : Pair α → Prop
  | kept {p} : p ∈ s.pairs → t.engine = s.engine → Origin r back s t p
  | cropped {p} (c : Crop) : p ∈ s.pairs → t.engine = s.engine →
      Origin r back s t { p with crop := c.inside r }
  | overridden {p} (o : Options α) : p ∈ s.pairs → t.engine = s.engine →
      Origin r back s t { p with overrides := o }
  | remapped {p q} : p ∈ s.pairs → p.Remapped q → Origin r back s t (timed t.engine q)
  | fresh {p} (c : Crop) : p.crop = c.inside r → Origin r back s t (timed t.engine p)
  | returned {p} : back = some p → Origin r back s t (timed t.engine p)

/-- What one edit makes of a store. -/
structure Step (r : Resolution) (back : Option (Pair α)) (s t : Store α) : Prop where
  pairs : ∀ p ∈ t.pairs, Origin r back s t p
  parked : ∀ p ∈ t.parked.pairs, p ∈ s.parked.pairs ∨ p ∈ s.pairs
  rates : s.grid = s.engine → t.grid = t.engine

/-- An edit of a store that is a step where it is done, and leaves no trace
    where it is refused. -/
structure Stepping {β : Type} (r : Resolution) (f : InPlace (EditError α) (Store α) β) : Prop where
  atomic : InPlace.Atomic f
  step : ∀ ⦃s b t⦄, f s = .ok b t → Step r none s t

variable {r : Resolution} {back : Option (Pair α)}

/-- A step that takes no pairs from elsewhere. -/
theorem Step.of_mem {s t : Store α} (hpairs : ∀ p ∈ t.pairs, p ∈ s.pairs)
    (hparked : ∀ p ∈ t.parked.pairs, p ∈ s.parked.pairs ∨ p ∈ s.pairs)
    (hgrid : t.grid = s.grid) (hengine : t.engine = s.engine) : Step r back s t where
  pairs p hp := .kept (hpairs p hp) hengine
  parked := hparked
  rates h := by rw [hgrid, hengine, h]

/-- A step that adds one pair. -/
theorem Step.snoc {s t : Store α} {q : Pair α} (hpairs : t.pairs = s.pairs ++ [q])
    (hq : Origin r back s t q) (hparked : ∀ p ∈ t.parked.pairs, p ∈ s.parked.pairs ∨ p ∈ s.pairs)
    (hgrid : t.grid = s.grid) (hengine : t.engine = s.engine) : Step r back s t where
  pairs p hp := by
    rw [hpairs, List.mem_append, List.mem_singleton] at hp
    rcases hp with hp | rfl
    · exact .kept hp hengine
    · exact hq
  parked := hparked
  rates h := by rw [hgrid, hengine, h]

/-- A new store has no pairs, and one rate. -/
theorem empty_eq_ok {rate : α} {s : Store α} (h : empty rate = .ok s) :
    ∃ g : FrameGrid α, s = ⟨[], .empty Parked.storeLimit, none, g, g⟩ := by
  unfold empty at h
  cases hg : (gridOf rate : Except (EditError α) (FrameGrid α)) with
  | error e => rw [hg] at h; cases h
  | ok g => rw [hg] at h; cases h; exact ⟨g, rfl⟩

section OnePair

/-- An edit of one pair is a step if it is atomic and makes of the pair what
    may become of it. -/
theorem onPair_stepping {β : Type} {index : Nat}
    {f : FrameGrid α → InPlace (MarkerError α) (Pair α) β} (hf : ∀ g, InPlace.Atomic (f g))
    (h : ∀ (s t : Store α) ⦃p b q⦄, t.engine = s.engine → p ∈ s.pairs →
      f s.engine p = .ok b q → Origin r none s t q) :
    Stepping r (do onPair index (f (← get).engine)) where
  atomic := by
    intro s e t hr
    change onPair index (f s.engine) s = _ at hr
    unfold onPair at hr
    cases hp : s.pair index with
    | error e' => rw [hp] at hr; cases hr; rfl
    | ok p =>
        rw [hp] at hr
        cases hq : f s.engine p with
        | ok b q => simp only [hq, reduceCtorEq] at hr
        | error cause q =>
            simp only [hq, EStateM.Result.error.injEq] at hr
            -- The pair is put back where it was, as it was.
            rw [← hr.2, hf _ hq, replace_self hp]
  step := by
    intro s b t hr
    change onPair index (f s.engine) s = _ at hr
    unfold onPair at hr
    cases hp : s.pair index with
    | error e => rw [hp] at hr; cases hr
    | ok p =>
        rw [hp] at hr
        cases hq : f s.engine p with
        | error cause q => simp only [hq, reduceCtorEq] at hr
        | ok b' q =>
            simp only [hq, EStateM.Result.ok.injEq] at hr
            rw [← hr.2]
            have hmem : p ∈ s.pairs := List.mem_of_getElem? (pair_eq_ok hp)
            refine ⟨fun p' hp' => ?_, fun p' hp' => Or.inl hp', fun hrates => hrates⟩
            rcases List.mem_or_eq_of_mem_set hp' with hp' | rfl
            · exact .kept hp' rfl
            · exact h s _ rfl hmem hq

theorem remapped_atomic (g : FrameGrid α) (f : Pair α → Except (MarkerError α) (Pair α)) :
    InPlace.Atomic (remapped g f) :=
  (InPlace.update_atomic f).bind_accepts fun _ => InPlace.modify_accepts _

theorem remapped_eq_ok {g : FrameGrid α} {f : Pair α → Except (MarkerError α) (Pair α)}
    {p q : Pair α} {b : Unit} (h : remapped g f p = .ok b q) :
    ∃ u, f p = .ok u ∧ q = timed g u := by
  rcases InPlace.bind_eq_ok.mp h with ⟨_, u, hu, hq⟩
  cases hq
  exact ⟨u, InPlace.update_eq_ok.mp hu, rfl⟩

/-- A change of the map of a pair, with its play time computed. -/
theorem remapped_stepping {index : Nat} {f : Pair α → Except (MarkerError α) (Pair α)}
    (hf : ∀ ⦃p q⦄, f p = .ok q → p.Remapped q) :
    Stepping r (do onPair index (remapped (← get).engine f)) :=
  onPair_stepping (f := fun g => remapped g f) (fun g => remapped_atomic g f) <| by
    intro s t p b q hengine hp hq
    rcases remapped_eq_ok hq with ⟨u, hu, rfl⟩
    rw [← hengine]
    exact .remapped hp (hf hu)

theorem stepped_atomic {g : FrameGrid α} {f : InPlace (MarkerError α) (Pair α) (Option Side)}
    (hf : InPlace.Atomic f) : InPlace.Atomic (stepped g f) := by
  refine hf.bind_accepts fun side => ?_
  intro p cause q h
  cases side with
  | none => cases h
  | some side => cases h

/-- Going one move back or forth, with the play time computed if there was
    one. -/
theorem stepped_stepping {index : Nat} {f : InPlace (MarkerError α) (Pair α) (Option Side)}
    (hatomic : InPlace.Atomic f)
    (hf : ∀ ⦃p side q⦄, f p = .ok side q → p.Remapped q ∧ (side = none → q = p)) :
    Stepping r (do onPair index (stepped (← get).engine f)) :=
  onPair_stepping (f := fun g => stepped g f) (fun _ => stepped_atomic hatomic) <| by
    intro s t p b q hengine hp hq
    rcases InPlace.bind_eq_ok.mp hq with ⟨side, u, hu, hq⟩
    rcases hf hu with ⟨hremapped, hnone⟩
    cases side with
    | none =>
        -- There was no move, so the play time stays as well.
        cases hq
        rw [hnone rfl]
        exact .kept hp hengine
    | some side =>
        cases hq
        rw [← hengine]
        exact .remapped hp hremapped

end OnePair

section Others

theorem make_crop {start stop speed : α} {crop : Crop} {p : Pair α}
    (h : Pair.make start stop speed crop = .ok p) : p.crop = crop := by
  unfold Pair.make at h
  split at h
  · cases h
  · cases hspeed : SpeedMap.checkSpeed speed with
    | error cause => rw [hspeed] at h; cases h
    | ok u =>
        cases hmap : SpeedMap.constant start stop speed with
        | error cause => rw [hspeed, hmap] at h; cases h
        | ok map => rw [hspeed, hmap] at h; cases h; rfl

/-- What creating a pair does. -/
theorem add_eq_ok {start stop : α} {settings : Settings α} {speed : Option α} {s t : Store α}
    {index : Nat} (h : add start stop settings speed s = .ok index t) :
    ∃ p, Pair.make start stop (speed.getD settings.newSpeed)
        (settings.newCrop.inside settings.resolution) = .ok p ∧
      t = { s with pairs := s.pairs ++ [timed s.engine p], parked := s.parked.clear } := by
  rcases InPlace.bind_eq_ok.mp h with ⟨p, u, hp, hrest⟩
  rcases marking_eq_ok hp with ⟨hmake, rfl⟩
  cases hrest
  exact ⟨p, hmake, rfl⟩

theorem add_stepping (start stop : α) (settings : Settings α) (speed : Option α) :
    Stepping settings.resolution (add start stop settings speed) where
  atomic := (InPlace.demand_atomic _).bind_accepts fun p s e t h => nomatch h
  step := by
    intro s index t h
    rcases add_eq_ok h with ⟨p, hp, rfl⟩
    exact .snoc rfl (.fresh settings.newCrop (make_crop hp)) (fun q hq => nomatch hq) rfl rfl

/-- What placing a marker does. -/
theorem place_eq (time : α) (settings : Settings α) (s : Store α) :
    place time settings s =
      match s.pending with
      | none =>
        .ok (.start (s.grid.snapDown time)) { s with pending := some (s.grid.snapDown time) }
      | some start =>
        if s.grid.snapDown time ≤ start then
          .error (.marker (.endBeforeStart (s.grid.snapDown time) start)) s
        else
          match add start (s.grid.snapDown time) settings none s with
          | .error e t => .error e t
          | .ok index t => .ok (.pair index) { t with pending := none } := by
  rcases s with ⟨pairs, parked, pending, grid, engine⟩
  cases pending with
  | none => rfl
  | some start =>
      -- The block is unfolded to the test and then to the creation of the pair.
      change (if grid.snapDown time ≤ start then _ else _ : InPlace (EditError α) (Store α) _) _ =
        if grid.snapDown time ≤ start then _ else _
      by_cases hle : grid.snapDown time ≤ start
      · rw [if_pos hle, if_pos hle]
        rfl
      · rw [if_neg hle, if_neg hle]
        change EStateM.bind (add start (grid.snapDown time) settings none) _ _ = _
        unfold EStateM.bind
        cases add start (grid.snapDown time) settings none _ <;> rfl

theorem place_stepping (time : α) (settings : Settings α) :
    Stepping settings.resolution (place time settings) where
  atomic := by
    intro s e t h
    rw [place_eq] at h
    split at h
    · cases h
    · split at h
      · cases h
        rfl
      · split at h
        · -- Refused while the pair was created, so nothing has changed.
          case _ e' u hadd =>
            cases h
            exact (add_stepping _ _ _ _).atomic hadd
        · cases h
  step := by
    intro s b t h
    rw [place_eq] at h
    split at h
    · cases h
      exact .of_mem (fun p hp => hp) (fun p hp => Or.inl hp) rfl rfl
    · split at h
      · cases h
      · split at h
        · cases h
        · -- Only the pending start tells this from creating a pair by hand.
          case _ index u hadd =>
            cases h
            rcases add_eq_ok hadd with ⟨p, hp, rfl⟩
            exact .snoc rfl (.fresh settings.newCrop (make_crop hp)) (fun q hq => nomatch hq)
              rfl rfl

theorem cancel_stepping : Stepping r (cancel (α := α)) where
  atomic _ _ _ h := nomatch h
  step := by
    intro s b t h
    cases h
    exact .of_mem (fun p hp => hp) (fun p hp => Or.inl hp) rfl rfl

theorem delete_stepping (index : Nat) : Stepping r (delete (α := α) index) where
  atomic := by
    refine InPlace.atomic_get_bind fun s => InPlace.atomic_demand_bind fun p => ?_
    intro s' e t h
    cases h
  step := by
    intro s b t h
    rcases InPlace.bind_eq_ok.mp (show (InPlace.demand (s.pair index) >>= _) s = _ from h) with
      ⟨p, u, hp, h⟩
    rcases InPlace.demand_eq_ok.mp hp with ⟨-, rfl⟩
    cases h
    exact .of_mem (fun p hp => List.mem_of_mem_eraseIdx hp) (fun p hp => Or.inl hp) rfl rfl

omit [Scalar α] in
theorem mem_of_mem_insertIdx {l : List (Pair α)} {index : Nat} {p q : Pair α}
    (h : p ∈ l.insertIdx index q) : p = q ∨ p ∈ l := by
  by_cases hle : index ≤ l.length
  · exact (List.mem_insertIdx hle).mp h
  · rw [List.insertIdx_of_length_lt (by omega)] at h
    exact Or.inr h

theorem reorder_stepping (source target : Nat) :
    Stepping r (reorder (α := α) source target) where
  atomic := by
    refine InPlace.atomic_get_bind fun s => InPlace.atomic_demand_bind fun p => ?_
    exact InPlace.atomic_demand_bind fun q s' e t h => nomatch h
  step := by
    intro s b t h
    rcases InPlace.bind_eq_ok.mp (show (InPlace.demand (s.pair source) >>= _) s = _ from h) with
      ⟨p, u, hp, h₁⟩
    rcases InPlace.demand_eq_ok.mp hp with ⟨hpair, rfl⟩
    rcases InPlace.bind_eq_ok.mp h₁ with ⟨q, u', hq, h₂⟩
    rcases InPlace.demand_eq_ok.mp hq with ⟨-, rfl⟩
    cases h₂
    -- The pair that is put in is the one that was taken out.
    refine .of_mem (fun p' hp' => ?_) (fun p hp => Or.inl hp) rfl rfl
    rcases mem_of_mem_insertIdx hp' with rfl | hp'
    · exact List.mem_of_getElem? (pair_eq_ok hpair)
    · exact List.mem_of_mem_eraseIdx hp'

omit [Scalar α] in
/-- What undoing the creation of a pair does. -/
theorem undoPair_eq (s : Store α) :
    undoPair s =
      match s.pending, s.pairs.getLast? with
      | some _, _ => .ok true { s with pending := none }
      | none, some p => .ok true { s with pairs := s.pairs.dropLast, parked := s.parked.push p }
      | none, none => .ok false s := by
  rcases s with ⟨pairs, parked, pending, grid, engine⟩
  -- A pending start is given up before any pair is looked at.
  cases pending with
  | some start => rfl
  | none =>
      change (match (none : Option α), pairs.getLast? with
        | some _, _ => _
        | none, some p => _
        | none, none => _ : InPlace (EditError α) (Store α) Bool) _ = _
      cases pairs.getLast? <;> rfl

theorem undoPair_stepping : Stepping r (undoPair (α := α)) where
  atomic := by
    intro s e t h
    rw [undoPair_eq] at h
    split at h <;> cases h
  step := by
    intro s b t h
    rw [undoPair_eq] at h
    split at h
    · cases h
      exact .of_mem (fun p hp => hp) (fun p hp => Or.inl hp) rfl rfl
    · case _ p _ hlast =>
        cases h
        refine .of_mem (fun q hq => (List.dropLast_sublist _).subset hq) (fun q hq => ?_) rfl rfl
        -- The pair that is parked was the last.
        rcases List.mem_cons.mp (List.mem_of_mem_take hq) with rfl | hq
        · exact Or.inr (List.mem_of_getLast? hlast)
        · exact Or.inl hq
    · cases h
      exact .of_mem (fun p hp => hp) (fun p hp => Or.inl hp) rfl rfl

/-- What bringing a parked pair back does. -/
theorem redoPair_eq (s : Store α) :
    redoPair s =
      match s.parked.pop with
      | none => .ok none s
      | some (p, parked) =>
        .ok (some s.pairs.length) { s with pairs := s.pairs ++ [timed s.engine p], parked } := by
  rcases s with ⟨pairs, parked, pending, grid, engine⟩
  change (match parked.pop with
    | none => _
    | some (p, parked) => _ : InPlace (EditError α) (Store α) (Option Nat)) _ = _
  cases parked.pop <;> rfl

theorem redoPair_atomic : InPlace.Atomic (redoPair (α := α)) := by
  intro s e t h
  rw [redoPair_eq] at h
  split at h <;> cases h

/-- The one edit that brings a pair back. -/
theorem redoPair_step {s t : Store α} {b : Option Nat} (h : redoPair s = .ok b t) :
    Step r s.parked.peek s t := by
  rw [redoPair_eq] at h
  unfold Parked.pop at h
  cases hparked : s.parked.pairs with
  | nil =>
      rw [hparked] at h
      cases h
      exact .of_mem (fun p hp => hp) (fun p hp => Or.inl hp) rfl rfl
  | cons p ps =>
      rw [hparked] at h
      cases h
      -- The latest parked pair stands at the end of the list, and the others stay parked.
      refine .snoc rfl (.returned ?_) (fun q hq => Or.inl ?_) rfl rfl
      · rw [Parked.peek, hparked]
        rfl
      · rw [hparked]
        exact List.mem_cons_of_mem p hq

/-- An edit of one pair that does not touch its map. -/
theorem modified_stepping {index : Nat} {f : Pair α → Pair α}
    (hf : ∀ (s t : Store α) ⦃p⦄, t.engine = s.engine → p ∈ s.pairs → Origin r none s t (f p)) :
    Stepping r (onPair index (modify f)) :=
  onPair_stepping (f := fun _ => modify f) (fun _ _ _ _ h => nomatch h) <| by
    intro s t p b q hengine hp h
    cases h
    exact hf s t hengine hp

theorem setCrop_stepping (index : Nat) (crop : Crop) :
    Stepping r (setCrop (α := α) index crop r) :=
  modified_stepping fun _ _ _ hengine hp => .cropped crop hp hengine

theorem setOverrides_stepping (index : Nat) (overrides : Options α) :
    Stepping r (setOverrides index overrides) :=
  modified_stepping fun _ _ _ hengine hp => .overridden overrides hp hengine

/-- A speed that is positive suits every pair. -/
theorem setSpeed_accepted {speed : α} (h : Scalar.isPositive speed = true) (p : Pair α) :
    ∃ q, p.setSpeed speed = .ok q := by
  unfold Pair.setSpeed SpeedMap.setSpeed SpeedMap.checkSpeed
  rw [if_pos h]
  cases hplain : p.map.isPlain with
  | true => exact ⟨_, rfl⟩
  | false => exact ⟨_, rfl⟩

/-- The edits of all pairs go through, once the speed has been checked. -/
theorem onPairs_setSpeed_accepted {speed : α} (h : Scalar.isPositive speed = true)
    (g : FrameGrid α) : InPlace.Accepts (onPairs (remapped g (Pair.setSpeed speed))) := by
  -- A refusal of the whole would be one at some pair.
  intro s e t hr
  unfold onPairs at hr
  cases heach : InPlace.each (remapped g (Pair.setSpeed speed)) s.pairs with
  | ok b pairs => rw [heach] at hr; cases hr
  | error cause pairs =>
      rcases InPlace.each_eq_error heach with ⟨p, -, q, hpq⟩
      rcases setSpeed_accepted h p with ⟨p', hp'⟩
      rcases InPlace.bind_eq_error.mp hpq with hpq | ⟨b, u, -, hpq⟩
      · rw [(InPlace.update_eq_error.mp hpq).1] at hp'
        cases hp'
      · cases hpq

theorem setAllSpeeds_stepping (speed : α) : Stepping r (setAllSpeeds speed) where
  atomic := by
    intro s e t h
    rcases InPlace.bind_eq_error.mp h with h | ⟨m, u, hm, h⟩
    · exact InPlace.demand_atomic _ h
    · -- A speed that got so far is refused by no pair.
      have hspeed := SpeedMap.isPositive_of_constant (marking_eq_ok hm).1
      exact (onPairs_setSpeed_accepted hspeed u.engine h).elim
  step := by
    intro s b t h
    rcases InPlace.bind_eq_ok.mp h with ⟨m, u, hm, hpairs⟩
    rcases marking_eq_ok hm with ⟨-, rfl⟩
    change onPairs (remapped u.engine (Pair.setSpeed speed)) u = _ at hpairs
    unfold onPairs at hpairs
    cases heach : InPlace.each (remapped u.engine (Pair.setSpeed speed)) u.pairs with
    | error cause pairs => rw [heach] at hpairs; cases hpairs
    | ok b' pairs =>
        rw [heach] at hpairs
        cases hpairs
        refine ⟨fun q hq => ?_, fun q hq => Or.inl hq, fun h => h⟩
        rcases InPlace.each_mem heach q hq with ⟨p, hp, hpq⟩
        rcases remapped_eq_ok hpq with ⟨p', hp', rfl⟩
        exact .remapped hp (Pair.setSpeed_remapped hp')

theorem setRate_eq (rate : α) (s : Store α) :
    setRate rate s =
      match (gridOf rate : Except (EditError α) (FrameGrid α)) with
      | .error e => .error e s
      | .ok g => .ok () (refreshed { s with grid := g, engine := g }) := by
  unfold setRate
  cases (gridOf rate : Except (EditError α) (FrameGrid α)) <;> rfl

theorem setRate_stepping (rate : α) : Stepping r (setRate rate) where
  atomic := by
    intro s e t h
    rw [setRate_eq] at h
    split at h
    · cases h
      rfl
    · cases h
  step := by
    intro s b t h
    rw [setRate_eq] at h
    split at h
    · cases h
    · cases h
      -- Both rates are the new one, and every play time is computed with it.
      refine ⟨fun q hq => ?_, fun q hq => Or.inl hq, fun _ => rfl⟩
      rcases List.mem_map.mp hq with ⟨p, hp, rfl⟩
      exact .remapped hp rfl

theorem setAllCrops_stepping (crop : Crop) : Stepping r (setAllCrops (α := α) crop r) where
  atomic _ _ _ h := nomatch h
  step := by
    intro s b t h
    cases h
    refine ⟨fun q hq => ?_, fun q hq => Or.inl hq, fun h => h⟩
    rcases List.mem_map.mp hq with ⟨p, hp, rfl⟩
    exact .cropped crop hp rfl

theorem rescale_step (settings : Settings α) (s : Store α) :
    Step r none s (s.rescale r settings).1 := by
  refine ⟨fun q hq => ?_, fun q hq => Or.inl hq, fun h => h⟩
  rcases List.mem_map.mp hq with ⟨p, hp, rfl⟩
  exact .cropped _ hp rfl

end Others

end Store

namespace Edit

variable {α : Type}

/-- The resolution that an edit counts crops in. -/
def resolution (settings : Settings α) : Edit α → Resolution
  | .setCrop _ _ r => r.getD settings.resolution
  | .rescale r => r
  | _ => settings.resolution

/-- The resolution that an edit leaves a session with. -/
def chosen (settings : Settings α) : Edit α → Resolution
  | .rescale r => r
  | _ => settings.resolution

/-- The pair that an edit brings back. -/
def brought (s : Store α) : Edit α → Option (Pair α)
  | .redoPair => s.parked.peek
  | _ => none

end Edit

namespace Project

variable {α : Type} [Scalar α]

/-- What one edit makes of a session. -/
structure Step (e : Edit α) (p q : Project α) : Prop where
  store : Store.Step (e.resolution p.settings) (e.brought p.store) p.store q.store
  resolution : q.settings.resolution = e.chosen p.settings

/-- How an edit may come out: it is done and is a step, or it is refused and
    leaves the session as it was. -/
def ComesOut (e : Edit α) (p : Project α) :
    EStateM.Result (EditError α) (Project α) (Outcome α) → Prop
  | .ok _ q => Step e p q
  | .error _ q => q = p

/-- An edit of the store, reported in one way or another. -/
theorem reported_comes_out {e : Edit α} {p : Project α} {β : Type}
    {f : InPlace (EditError α) (Store α) β} (k : β → Outcome α) (hatomic : InPlace.Atomic f)
    (hstep : ∀ ⦃b t⦄, f p.store = .ok b t →
      Store.Step (e.resolution p.settings) (e.brought p.store) p.store t)
    (hchosen : e.chosen p.settings = p.settings.resolution) :
    ComesOut e p ((onStore f >>= fun b => pure (k b)) p) := by
  change ComesOut e p (EStateM.bind (onStore f) (fun b => pure (k b)) p)
  unfold EStateM.bind onStore
  -- An edit that is refused has left the store, and so the project, as it was.
  cases hf : f p.store with
  | ok b t => exact ⟨hstep hf, hchosen.symm⟩
  | error cause t =>
      rw [hatomic hf]
      exact (rfl : p = p)

/-- Every edit comes out in one of the two ways. -/
theorem edit_comes_out (e : Edit α) (p : Project α) : ComesOut e p (edit e p) := by
  have hstepping : ∀ {β : Type} {f : InPlace (EditError α) (Store α) β} (k : β → Outcome α),
      e.brought p.store = none → e.chosen p.settings = p.settings.resolution →
      Store.Stepping (e.resolution p.settings) f →
      ComesOut e p ((onStore f >>= fun b => pure (k b)) p) := by
    intro β f k hback hchosen hf
    exact reported_comes_out k hf.atomic (fun b t h => hback ▸ hf.step h) hchosen
  -- Redoing alone brings a pair back, and rescaling alone chooses a resolution.
  cases e with
  | add start stop speed =>
      exact hstepping (fun i => .place (some i)) rfl rfl (Store.add_stepping _ _ p.settings _)
  | place time => exact hstepping .placed rfl rfl (Store.place_stepping time p.settings)
  | cancel => exact hstepping .cancelled rfl rfl Store.cancel_stepping
  | move index side time =>
      exact hstepping (fun _ => .done) rfl rfl
        (Store.remapped_stepping fun _ _ h => Pair.move_remapped h)
  | undoMove index =>
      exact hstepping .moved rfl rfl
        (Store.stepped_stepping Pair.takeBack_atomic fun _ _ _ h => Pair.takeBack_remapped h)
  | redoMove index =>
      exact hstepping .moved rfl rfl
        (Store.stepped_stepping Pair.makeAgain_atomic fun _ _ _ h => Pair.makeAgain_remapped h)
  | delete index => exact hstepping .removed rfl rfl (Store.delete_stepping index)
  | reorder source target =>
      exact hstepping (fun _ => .done) rfl rfl (Store.reorder_stepping source target)
  | undoPair => exact hstepping .undone rfl rfl Store.undoPair_stepping
  | redoPair =>
      exact reported_comes_out .place Store.redoPair_atomic
        (fun b t h => Store.redoPair_step h) rfl
  | setSpeed index speed =>
      exact hstepping (fun _ => .done) rfl rfl
        (Store.remapped_stepping fun _ _ h => Pair.setSpeed_remapped h)
  | setCrop index crop resolution =>
      exact hstepping (fun _ => .done) rfl rfl (Store.setCrop_stepping index crop)
  | setOverrides index overrides =>
      exact hstepping (fun _ => .done) rfl rfl (Store.setOverrides_stepping index overrides)
  | replaceMap index map =>
      exact hstepping (fun _ => .done) rfl rfl
        (Store.remapped_stepping fun _ _ h => Pair.replaceMap_remapped h)
  | setAllSpeeds speed =>
      exact hstepping (fun _ => .done) rfl rfl (Store.setAllSpeeds_stepping speed)
  | setAllCrops crop => exact hstepping (fun _ => .done) rfl rfl (Store.setAllCrops_stepping crop)
  | rescale r => exact ⟨Store.rescale_step p.settings p.store, rfl⟩
  | setRate rate => exact hstepping (fun _ => .done) rfl rfl (Store.setRate_stepping rate)

/-- A refused edit leaves the session as it was. -/
theorem edit_atomic (e : Edit α) : InPlace.Atomic (edit e) := by
  intro p cause q h
  have hout := edit_comes_out e p
  rw [h] at hout
  exact hout

end Project

/-- What happens in a session: an edit, or a change of the settings from
    outside. -/
inductive Event (α : Type) where
  | edit (e : Edit α)
  | choose (settings : Settings α)

namespace Project

variable {α : Type} [Scalar α]

/-- The session after an event. An edit that is refused is an event too. -/
def after (p : Project α) : Event α → Project α
  | .edit e => InPlace.left (edit e p)
  | .choose settings => { p with settings }

/-- The session after a run of events. -/
def run (p : Project α) (es : List (Event α)) : Project α :=
  es.foldl after p

theorem run_concat (p : Project α) (es : List (Event α)) (e : Event α) :
    p.run (es ++ [e]) = (p.run es).after e :=
  List.foldl_concat ..

theorem run_append (p : Project α) (es fs : List (Event α)) :
    p.run (es ++ fs) = (p.run es).run fs :=
  List.foldl_append

/-- What is left of an edit is a step away, or is what was there before. -/
theorem after_edit (p : Project α) (e : Edit α) :
    Step e p (p.after (.edit e)) ∨ p.after (.edit e) = p := by
  have hout := edit_comes_out e p
  change Step e p (InPlace.left (edit e p)) ∨ InPlace.left (edit e p) = p
  cases hr : edit e p with
  | ok o q => rw [hr] at hout; exact Or.inl hout
  | error cause q => rw [hr] at hout; exact Or.inr hout

end Project

end Retime
