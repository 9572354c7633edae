import Mathlib.Data.List.Induction
import Mathlib.Data.List.Nodup
import Mathlib.Data.List.TakeWhile
import Plexus.Proofs.Telemetry.Delivery

/-!
# Registrations and their handles

Whoever subscribes to a channel gets a handle that takes the registration off again.  A handle only
knows the callback that was subscribed, so it takes off the first registration of that callback,
whichever that is.  Here registrations are told apart: they are numbered in the order in which
they are made, and a roll keeps those that stand, each until its own handle is called or the
channel is cleared.  The channel agrees with the roll as long as every handle that is called finds
its own registration, or one that cannot be told from it by the callbacks around it.
-/

namespace Plexus

open Attempt

/-- A call that changes the subscribers of a channel. -/
inductive Registering (κ : Type) where
  | subscribe (callback : κ)
  /-- Calls the handle of the registration with a number. -/
  | cancel (number : Nat)
  | clear

/-- The registrations that have been made, by their callbacks, and those that stand. -/
structure Roll (κ : Type) where
  made : List κ
  standing : List (Nat × κ)

namespace Roll

variable {κ : Type}

/-- The roll before any registration. -/
def empty : Roll κ := ⟨[], []⟩

/-- The roll after a call. -/
def enter (r : Roll κ) : Registering κ → Roll κ
  | .subscribe k => ⟨r.made ++ [k], r.standing ++ [(r.made.length, k)]⟩
  | .cancel i => ⟨r.made, r.standing.filter fun p => p.1 != i⟩
  | .clear => ⟨r.made, []⟩

/-- The callbacks of the registrations that stand. -/
def callbacks (r : Roll κ) : List κ := r.standing.map Prod.snd

/--
A handle is exact if the registrations from the first one of its callback up to its own are all of
that callback, or, when its own stands no longer, if no registration of its callback does.
-/
def Exact [DecidableEq κ] (r : Roll κ) (i : Nat) : Prop :=
  ∀ k, r.made[i]? = some k →
    ((i, k) ∈ r.standing →
      ∀ p ∈ (r.standing.takeWhile fun p => p.1 != i).dropWhile fun p => p.2 != k, p.2 = k) ∧
    ((i, k) ∉ r.standing → ∀ p ∈ r.standing, p.2 ≠ k)

end Roll

/--
A channel with what has been done to it.  `memory` is what callbacks keep to themselves.
-/
structure Registry (κ ω : Type) where
  channel : Channel κ
  /-- The callbacks that handles have been given out for. -/
  made : List κ
  past : List (Registering κ)
  memory : ω

namespace Registry

variable {κ ω : Type}

/-- A channel that nothing has been done to. -/
def blank (memory : ω) : Registry κ ω := ⟨.empty, [], [], memory⟩

/-- Carries out a call; a handle takes its callback off the channel. -/
def act [DecidableEq κ] (g : Registry κ ω) (a : Registering κ) : Registry κ ω :=
  match a with
  | .subscribe k =>
      { g with channel := g.channel.subscribe k, made := g.made ++ [k], past := g.past ++ [a] }
  | .cancel i =>
      { g with
        channel := match g.made[i]? with
          | some k => g.channel.unsubscribe k
          | none => g.channel
        past := g.past ++ [a] }
  | .clear => { g with channel := g.channel.clear, past := g.past ++ [a] }

end Registry

/--
What a program or a callback does to a channel, one thing after another.  It may look at
everything, remember things, emit events and go on even if that fails, and fail itself.
-/
inductive Script (κ ω : Type) where
  | done
  | fail (f : Fault)
  | act (a : Registering κ) (next : Script κ ω)
  | look (next : Registry κ ω → Script κ ω)
  | remember (memory : ω) (next : Script κ ω)
  | emit (kind value : Value) (next : Except Fault Unit → Script κ ω)

namespace Script

variable {κ ω : Type} [DecidableEq κ]

/-- Carries out a script; `emitOn` emits its events. -/
def perform (emitOn : Value → Value → Attempt (Registry κ ω) Unit) :
    Script κ ω → Attempt (Registry κ ω) Unit
  | .done => pure ()
  | .fail f => throw f
  | .act a next => do
      modify fun g => g.act a
      perform emitOn next
  | .look next => fun g => (perform emitOn (next g)).outcome g
  | .remember memory next => do
      modify fun g => { g with memory }
      perform emitOn next
  | .emit kind value next => fun g =>
      match (emitOn kind value).outcome g with
      | (r, h) => (perform emitOn (next r)).outcome h

/--
Emits an event to callbacks that do what scripts say, with at most so many events inside one
another.
-/
def emitWithin (behave : κ → Event → Script κ ω) :
    Nat → Value → Value → Attempt (Registry κ ω) Unit
  | 0, _, _ => throw .tooDeep
  | depth + 1, kind, value =>
      Channel.emitValues Registry.channel
        (fun k e => perform (emitWithin behave depth) (behave k e)) kind value

end Script

/-!
## One call
-/

namespace Roll

variable {κ : Type}

/-- A roll on which every registration stands at most once, under the callback it was made with. -/
structure Valid (r : Roll κ) : Prop where
  made : ∀ p ∈ r.standing, r.made[p.1]? = some p.2
  once : (r.standing.map Prod.fst).Nodup

theorem valid_empty : (empty : Roll κ).Valid where
  made := fun _ hp => absurd hp List.not_mem_nil
  once := List.nodup_nil

theorem Valid.enter {r : Roll κ} (h : r.Valid) (a : Registering κ) : (r.enter a).Valid := by
  cases a with
  | subscribe k =>
      constructor
      · intro p hp
        rcases List.mem_append.mp hp with hp | hp
        · have hmade := h.made p hp
          exact List.getElem?_append_left (List.getElem?_eq_some_iff.mp hmade).1 ▸ hmade
        · rw [List.mem_singleton.mp hp]
          exact List.getElem?_concat_length
      · rw [Roll.enter, List.map_append]
        refine List.nodup_append.mpr ⟨h.once, List.pairwise_singleton _ _, ?_⟩
        intro i hi j hj hij
        rcases List.mem_map.mp hi with ⟨p, hp, rfl⟩
        rw [List.mem_singleton.mp hj] at hij
        have hlt := (List.getElem?_eq_some_iff.mp (h.made p hp)).1
        omega
  | cancel i =>
      exact ⟨fun p hp => h.made p (List.mem_filter.mp hp).1,
        h.once.sublist (List.filter_sublist.map Prod.fst)⟩
  | clear => exact ⟨fun _ hp => absurd hp List.not_mem_nil, List.nodup_nil⟩

end Roll

section Lists

variable {κ : Type}

/-- Moving an item to the front of a list leaves the list as it is if all items are that one. -/
theorem append_cons_eq_cons_append {k : κ} (xs ys : List κ) :
    xs ++ k :: ys = k :: (xs ++ ys) ↔ ∀ x ∈ xs, x = k := by
  induction xs with
  | nil => simp
  | cons x rest ih =>
      rw [List.cons_append, List.cons_append, List.cons.injEq, List.forall_mem_cons]
      refine and_congr_right fun hx => ?_
      rw [hx]
      exact ih

/--
Taking off the first occurrence of an item is as good as taking off a later one exactly if nothing
else stands between them.
-/
theorem erase_append_cons_eq_iff [DecidableEq κ] {k : κ} (xs ys : List κ) :
    (xs ++ k :: ys).erase k = xs ++ ys ↔ ∀ x ∈ xs.dropWhile fun x => x != k, x = k := by
  induction xs with
  | nil => simp
  | cons x rest ih =>
      rw [List.cons_append, List.erase_cons, List.dropWhile_cons]
      cases hx : x == k with
      | true =>
          rw [eq_of_beq hx]
          simp [append_cons_eq_cons_append]
      | false =>
          simp [bne, hx, ih]

end Lists

namespace Roll

variable {κ : Type} {r : Roll κ} {i : Nat} {k : κ}

theorem Valid.filter_of_absent (h : r.Valid) (hk : r.made[i]? = some k)
    (habsent : (i, k) ∉ r.standing) : r.standing.filter (fun p => p.1 != i) = r.standing := by
  rw [List.filter_eq_self]
  rintro ⟨j, k'⟩ hp
  rw [bne_iff_ne]
  rintro rfl
  have hmade := h.made _ hp
  rw [hk] at hmade
  cases hmade
  exact habsent hp

theorem Valid.filter_of_unmade (h : r.Valid) (hi : r.made[i]? = none) :
    r.standing.filter (fun p => p.1 != i) = r.standing := by
  rw [List.filter_eq_self]
  intro p hp
  rw [bne_iff_ne]
  rintro rfl
  have hmade := h.made p hp
  rw [hi] at hmade
  cases hmade

/-- The registration with a number stands between others with other numbers. -/
theorem Valid.split (h : r.Valid) (hstands : (i, k) ∈ r.standing) :
    ∃ before after, r.standing = before ++ (i, k) :: after ∧
      r.standing.filter (fun p => p.1 != i) = before ++ after ∧
      r.standing.takeWhile (fun p => p.1 != i) = before := by
  rcases List.append_of_mem hstands with ⟨before, after, hsplit⟩
  have honce := h.once
  rw [hsplit, List.map_append, List.map_cons, List.nodup_middle, List.nodup_cons,
    ← List.map_append] at honce
  have hother : ∀ p ∈ before ++ after, (p.1 != i) = true := by
    intro p hp
    rw [bne_iff_ne]
    rintro rfl
    exact honce.1 (List.mem_map.mpr ⟨p, hp, rfl⟩)
  have hbefore : ∀ p ∈ before, (p.1 != i) = true :=
    fun p hp => hother p (List.mem_append_left after hp)
  refine ⟨before, after, hsplit, ?_, ?_⟩
  · have hrest := List.filter_eq_self.mpr hother
    rw [List.filter_append] at hrest
    rw [hsplit, List.filter_append, List.filter_cons, bne_self_eq_false]
    exact hrest
  · rw [hsplit, List.takeWhile_append_of_pos hbefore, List.takeWhile_cons, bne_self_eq_false]
    exact List.append_nil before

/-- Taking a callback off takes off its registration exactly if the handle is exact. -/
theorem Valid.erase_callbacks_iff [DecidableEq κ] (h : r.Valid) (hk : r.made[i]? = some k) :
    r.callbacks.erase k = (r.enter (.cancel i)).callbacks ↔ r.Exact i := by
  have hexact : r.Exact i ↔
      ((i, k) ∈ r.standing →
        ∀ p ∈ (r.standing.takeWhile fun p => p.1 != i).dropWhile fun p => p.2 != k, p.2 = k) ∧
      ((i, k) ∉ r.standing → ∀ p ∈ r.standing, p.2 ≠ k) := by
    rw [Exact, hk]
    simp only [Option.some.injEq, forall_eq']
  rw [hexact, callbacks, callbacks, Roll.enter]
  by_cases hstands : (i, k) ∈ r.standing
  · rcases h.split hstands with ⟨before, after, hsplit, hfilter, htake⟩
    rw [hfilter, htake, hsplit, List.map_append, List.map_append, List.map_cons,
      erase_append_cons_eq_iff, List.dropWhile_map, List.forall_mem_map]
    exact ⟨fun hall => ⟨fun _ => hall, fun h => absurd (hsplit ▸ hstands) h⟩,
      fun hall => hall.1 (hsplit ▸ hstands)⟩
  · rw [h.filter_of_absent hk hstands, List.erase_eq_self_iff]
    constructor
    · refine fun hnone => ⟨fun h => absurd h hstands, fun _ p hp hpk => hnone ?_⟩
      exact hpk ▸ List.mem_map_of_mem hp
    · intro hall hk
      rcases List.mem_map.mp hk with ⟨p, hp, hpk⟩
      exact hall.2 hstands p hp hpk

/-- Where no callback is subscribed twice, every handle is exact. -/
theorem Valid.exact_of_nodup [DecidableEq κ] (h : r.Valid) (hmade : r.made.Nodup) : r.Exact i := by
  intro k hk
  have hown : ∀ p ∈ r.standing, p.2 = k → p = (i, k) := by
    rintro ⟨j, k'⟩ hp rfl
    have hlt := (List.getElem?_eq_some_iff.mp (h.made _ hp)).1
    have hj : j = i := (List.getElem?_inj hlt hmade).mp ((h.made _ hp).trans hk.symm)
    rw [hj]
  constructor
  · intro _ p hp
    have hnone : (r.standing.takeWhile fun p => p.1 != i).dropWhile (fun p => p.2 != k) = [] := by
      rw [List.dropWhile_eq_nil_iff]
      intro p hp
      rw [bne_iff_ne]
      intro hpk
      have hpi := List.mem_takeWhile_imp hp
      rw [hown p ((List.takeWhile_sublist _).subset hp) hpk, bne_self_eq_false] at hpi
      cases hpi
    rw [hnone] at hp
    cases hp
  · intro hstands p hp hpk
    exact hstands (hown p hp hpk ▸ hp)

end Roll

/-!
## Many calls
-/

section Calls

variable {κ ω : Type} [DecidableEq κ]

/-- The roll after some calls. -/
def rollAfter (acts : List (Registering κ)) : Roll κ := acts.foldl Roll.enter .empty

/-- A channel after some calls. -/
def registryAfter (acts : List (Registering κ)) : Registry κ Unit :=
  acts.foldl Registry.act (.blank ())

omit [DecidableEq κ] in
theorem rollAfter_concat (acts : List (Registering κ)) (a : Registering κ) :
    rollAfter (acts ++ [a]) = (rollAfter acts).enter a :=
  List.foldl_append ..

theorem registryAfter_concat (acts : List (Registering κ)) (a : Registering κ) :
    registryAfter (acts ++ [a]) = (registryAfter acts).act a :=
  List.foldl_append ..

omit [DecidableEq κ] in
theorem valid_rollAfter (acts : List (Registering κ)) : (rollAfter acts).Valid := by
  induction acts using List.reverseRecOn with
  | nil => exact Roll.valid_empty
  | append_singleton acts a ih =>
      rw [rollAfter_concat]
      exact ih.enter a

theorem made_registryAfter (acts : List (Registering κ)) :
    (registryAfter acts).made = (rollAfter acts).made := by
  induction acts using List.reverseRecOn with
  | nil => rfl
  | append_singleton acts a ih =>
      rw [rollAfter_concat, registryAfter_concat]
      cases a with
      | subscribe k => exact congrArg (· ++ [k]) ih
      | cancel i | clear => exact ih

/-- After some calls, the channel has the subscribers that stand on the roll. -/
def Agrees (acts : List (Registering κ)) : Prop :=
  (registryAfter acts).channel.subscribers = (rollAfter acts).callbacks

/-- One more call keeps the agreement, unless it is one of a handle that is not exact. -/
theorem agrees_concat_iff {acts : List (Registering κ)} {a : Registering κ} (h : Agrees acts) :
    Agrees (acts ++ [a]) ↔ ∀ i, a = .cancel i → (rollAfter acts).Exact i := by
  rw [Agrees] at h
  rw [Agrees, rollAfter_concat, registryAfter_concat]
  cases a with
  | subscribe k =>
      refine iff_of_true ?_ ?_
      · rw [Roll.callbacks, Roll.enter, List.map_append]
        exact congrArg (· ++ [k]) h
      · intro i hi
        cases hi
  | clear =>
      refine iff_of_true rfl ?_
      intro i hi
      cases hi
  | cancel i =>
      have hvalid := valid_rollAfter acts
      have hmade := made_registryAfter acts
      have hcancel : (∀ j, (.cancel i : Registering κ) = .cancel j → (rollAfter acts).Exact j) ↔
          (rollAfter acts).Exact i := by
        simp
      rw [hcancel]
      cases hk : (rollAfter acts).made[i]? with
      | none =>
          refine iff_of_true ?_ ?_
          · rw [Registry.act, hmade, hk, Roll.callbacks, Roll.enter, hvalid.filter_of_unmade hk]
            exact h
          · intro k hk'
            rw [hk] at hk'
            cases hk'
      | some k =>
          rw [← hvalid.erase_callbacks_iff hk, Registry.act, hmade, hk, ← h]
          rfl

/-- The channel agrees with the roll all along exactly if all handles that are called are exact. -/
theorem agrees_iff (acts : List (Registering κ)) :
    (∀ past, past <+: acts → Agrees past) ↔
      ∀ past i, past ++ [.cancel i] <+: acts → (rollAfter past).Exact i := by
  induction acts using List.reverseRecOn with
  | nil =>
      refine iff_of_true (fun past hpast => ?_) fun past i hpast => ?_
      · rw [List.prefix_nil.mp hpast]
        rfl
      · simp at hpast
  | append_singleton acts a ih =>
      constructor
      · intro hall past i hpast
        have hacts : Agrees acts := hall acts (List.prefix_append acts [a])
        rcases List.prefix_concat_iff.mp hpast with heq | hpast
        · rcases List.append_inj' heq rfl with ⟨rfl, ha⟩
          have hlast := (agrees_concat_iff hacts).mp (hall _ (List.prefix_refl _))
          exact hlast i (List.singleton_inj.mp ha).symm
        · have hbefore := ih.mp fun p hp => hall p (hp.trans (List.prefix_append acts [a]))
          exact hbefore past i hpast
      · intro hall past hpast
        have hbefore := ih.mpr fun p i hp => hall p i (hp.trans (List.prefix_append acts [a]))
        rcases List.prefix_concat_iff.mp hpast with rfl | hpast
        · refine (agrees_concat_iff (hbefore acts (List.prefix_refl _))).mpr fun i hi => ?_
          rw [hi] at hall
          exact hall acts i (List.prefix_refl _)
        · exact hbefore past hpast

omit [DecidableEq κ] in
theorem made_rollAfter_prefix {past acts : List (Registering κ)} (h : past <+: acts) :
    (rollAfter past).made <+: (rollAfter acts).made := by
  induction acts using List.reverseRecOn with
  | nil =>
      obtain rfl := List.prefix_nil.mp h
      exact List.prefix_refl _
  | append_singleton acts a ih =>
      rcases List.prefix_concat_iff.mp h with rfl | h
      · exact List.prefix_refl _
      · rw [rollAfter_concat]
        refine (ih h).trans ?_
        cases a with
        | subscribe k => exact List.prefix_append _ _
        | cancel i | clear => exact List.prefix_refl _

/-- Where no callback is subscribed twice, the channel agrees with the roll all along. -/
theorem agrees_of_nodup {acts : List (Registering κ)} (h : (rollAfter acts).made.Nodup) :
    ∀ past, past <+: acts → Agrees past := by
  refine (agrees_iff acts).mpr fun past i hpast => (valid_rollAfter past).exact_of_nodup ?_
  have hprefix := made_rollAfter_prefix ((List.prefix_append past [.cancel i]).trans hpast)
  exact h.sublist hprefix.sublist

end Calls

/-!
## Scripts
-/

namespace Registry

variable {κ ω : Type} [DecidableEq κ]

/-- A channel that is as its past has made it. -/
structure Follows (g : Registry κ ω) : Prop where
  channel : g.channel = (registryAfter g.past).channel
  made : g.made = (registryAfter g.past).made

theorem follows_blank (memory : ω) : (blank memory : Registry κ ω).Follows := ⟨rfl, rfl⟩

theorem Follows.act {g : Registry κ ω} (h : g.Follows) (a : Registering κ) : (g.act a).Follows := by
  have hpast : (g.act a).past = g.past ++ [a] := by
    cases a <;> rfl
  constructor
  · rw [hpast, registryAfter_concat]
    cases a with
    | subscribe k => exact congrArg (Channel.subscribe · k) h.channel
    | clear => rfl
    | cancel i =>
        rw [Registry.act, Registry.act, h.made, h.channel]
  · rw [hpast, registryAfter_concat]
    cases a with
    | subscribe k => exact congrArg (· ++ [k]) h.made
    | cancel i | clear => exact h.made

end Registry

namespace Script

variable {κ ω : Type} [DecidableEq κ]

/-- Whatever a script does, the channel is as its past has made it. -/
theorem follows_perform {emitOn : Value → Value → Attempt (Registry κ ω) Unit}
    (h : ∀ kind value, Respects (Kept Registry.Follows) (emitOn kind value))
    (script : Script κ ω) :
    Respects (Kept Registry.Follows) (perform emitOn script) := by
  induction script with
  | done => exact respects_pure ()
  | fail f => exact respects_throw f
  | act a next ih => exact (respects_modify fun g hg => hg.act a).bind fun _ => ih
  | look next ih => exact fun g => ih g g
  | remember memory next ih =>
      exact (respects_modify fun g hg => ⟨hg.channel, hg.made⟩).bind fun _ => ih
  | emit kind value next ih =>
      intro g hg
      exact ih _ _ (h kind value g hg)

theorem follows_emitWithin (behave : κ → Event → Script κ ω) (depth : Nat) (kind value : Value) :
    Respects (Kept Registry.Follows) (emitWithin behave depth kind value) := by
  induction depth generalizing kind value with
  | zero => exact respects_throw _
  | succ depth ih =>
      exact (respects_of _).bind fun e =>
        Channel.respects_emit fun k => follows_perform ih (behave k e)

end Script

/--
However a program and the callbacks that it subscribes use a channel, the subscribers are at every
point the registrations that stand exactly if every handle that is called is exact when it is.
-/
theorem handles_end_own_iff {κ ω : Type} [DecidableEq κ] (behave : κ → Event → Script κ ω)
    (depth : Nat) (memory : ω) (program : Script κ ω) :
    let g := (program.perform (Script.emitWithin behave depth)).after (.blank memory)
    g.channel = (registryAfter g.past).channel ∧
      ((∀ past, past <+: g.past →
          (registryAfter past).channel.subscribers = (rollAfter past).callbacks) ↔
        ∀ past i, past ++ [.cancel i] <+: g.past → (rollAfter past).Exact i) := by
  intro g
  have hfollows : g.Follows := Script.follows_perform (Script.follows_emitWithin behave depth)
    program (.blank memory) (Registry.follows_blank memory)
  exact ⟨hfollows.channel, agrees_iff g.past⟩

/-- A program that subscribes a callback twice and calls the second handle twice. -/
def cancelTwice : Script String Unit :=
  .act (.subscribe "a") (.act (.subscribe "a") (.act (.cancel 1) (.act (.cancel 1) .done)))

/-- A handle that is called again ends the registration of another one. -/
theorem handle_ends_other_twice :
    let g := (cancelTwice.perform (Script.emitWithin (fun _ _ => .done) 0)).after (.blank ())
    g.channel.subscribers = [] ∧ (rollAfter g.past).callbacks = ["a"] := by
  decide

end Plexus
