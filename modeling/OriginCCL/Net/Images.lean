/-
  File:      OriginCCL/Net/Images.lean
  Subject:   SYSTEMS WHOSE CALLS AGREE up to a map of their states.

  Two state machines that make the same transfers and store their cursors differently.

  * `Prog.Image` -- a call makes the transfers of another and ends in the image of its result.
  * `Images` -- a system whose calls are images, on the states its calls lead to.
  * `Run.image`, `Run.preimage` -- **the runs of the two systems are the same**, step by step.
  * `Run.same` -- systems with the same calls have the same runs.
-/
import OriginCCL.Net.Answers
import OriginCCL.Net.System

namespace OriginCCL.Net

/-! ## 1. Calls -/

namespace Prog

variable {τ β α α' γ γ' : Type} {f : α → α'} {K : α → Prop} {g : γ → γ'} {L : γ → Prop}

/-- **`q` is the image of `p`**: it makes the same transfers and ends in the image of the result, which
    meets `K`. -/
structure Image (f : α → α') (K : α → Prop) (p : Prog τ β α) (q : Prog τ β α') : Prop where
  eq : q = p.map f
  ensures : p.Ensures K

theorem Image.ret {a : α} (h : K a) : Image f K (.ret a : Prog τ β α) (.ret (f a)) := ⟨rfl, h⟩

theorem Image.fail (e : Fault) : Image f K (.fail e : Prog τ β α) (.fail e) := ⟨rfl, trivial⟩

/-- **Images in sequence.** -/
theorem Image.bind {p : Prog τ β α} {q : Prog τ β α'} (h : Image f K p q) {k : α → Prog τ β γ}
    {k' : α' → Prog τ β γ'} (hk : ∀ a, K a → Image g L (k a) (k' (f a))) :
    Image g L (p >>= k) (q >>= k') := by
  obtain ⟨rfl, he⟩ := h
  refine ⟨?_, (ensures_bind p k).mpr (ensures_mono (fun a ha => (hk a ha).ensures) he)⟩
  rw [bind_map, map_bind]
  induction p with
  | ret a => exact (hk a he).eq
  | fail e => rfl
  | send l data k ih => exact congrArg (Prog.send l data) (funext fun n => ih n (he n))
  | recv l size k ih => exact congrArg (Prog.recv l size) (funext fun bs => ih bs (he bs))

/-- Images in two branches. -/
theorem Image.ite {c c' : Prop} [Decidable c] [Decidable c'] {p p' : Prog τ β α} {q q' : Prog τ β α'}
    (h : c ↔ c') (hp : c → Image f K p q) (hp' : ¬ c → Image f K p' q') :
    Image f K (if c then p else p') (if c' then q else q') := by
  by_cases hc : c
  · rw [if_pos hc, if_pos (h.mp hc)]
    exact hp hc
  · rw [if_neg hc, if_neg (mt h.mpr hc)]
    exact hp' hc

theorem Image.mono {K' : α → Prop} {p : Prog τ β α} {q : Prog τ β α'} (h : Image f K p q)
    (hK : ∀ a, K a → K' a) : Image f K' p q := ⟨h.eq, ensures_mono hK h.ensures⟩

theorem ensures_trivial (p : Prog τ β α) : p.Ensures fun _ => True := by
  induction p with
  | ret a => trivial
  | fail e => trivial
  | send l data k ih => exact fun n => ih n
  | recv l size k ih => exact fun bs => ih bs

theorem map_id (p : Prog τ β α) : p.map id = p := by
  induction p with
  | ret a => rfl
  | fail e => rfl
  | send l data k ih => exact congrArg (Prog.send l data) (funext fun n => ih n)
  | recv l size k ih => exact congrArg (Prog.recv l size) (funext fun bs => ih bs)

/-- A call is its own image. -/
theorem Image.same {p : Prog τ β α} (h : p.Ensures K) : Image id K p p := ⟨(map_id p).symm, h⟩

/-- Where `f` changes nothing the two calls are the same. -/
theorem Image.fixed {f : α → α} {p q : Prog τ β α} (h : Image f K p q) (hK : ∀ a, K a → f a = a) :
    Image id K p q := by
  obtain ⟨rfl, he⟩ := h
  refine ⟨?_, he⟩
  induction p with
  | ret a => exact congrArg Prog.ret (hK a he)
  | fail e => rfl
  | send l data k ih => exact congrArg (Prog.send l data) (funext fun n => ih n (he n))
  | recv l size k ih => exact congrArg (Prog.recv l size) (funext fun bs => ih bs (he bs))

end Prog

/-! ## 2. Systems -/

section Systems

variable {V τ β T S S' M E : Type} [DecidableEq V] [DecidableEq τ]

/-- **A system and its image**: the calls of `sys'` on a task `t` are the images under `f` of those of
    `sys` on the task `g t`, on the states that meet `K t`. -/
structure Images (sys : System V τ β T S M E) (sys' : System V τ β T S' M E) (g : T → T)
    (f : S → S') (K : T → S → Prop) (tasks : V → List T) : Prop where
  init : ∀ v, ∀ t ∈ tasks v, ∀ m, Prog.Image f (K t) (sys.init (g t) m) (sys'.init t m)
  step : ∀ v, ∀ t ∈ tasks v, ∀ e s, K t s →
    Prog.Image f (K t) (sys.step (g t) e s) (sys'.step t e (f s))
  done : ∀ v, ∀ t ∈ tasks v, ∀ s, K t s → sys'.done t (f s) = sys.done (g t) s
  mem : ∀ s, sys'.mem (f s) = sys.mem s

def Mode.image (f : S → S') : Mode τ β S M → Mode τ β S' M
  | .fresh m => .fresh m
  | .idle s => .idle (f s)
  | .busy p => .busy (p.map f)

def Node.image (f : S → S') (n : Node τ β S M) : Node τ β S' M := ⟨n.finished, n.mode.image f, n.past⟩

/-- The configuration with the states of all nodes mapped. -/
def Config.image (f : S → S') (c : Config V τ β S M) : Config V τ β S' M :=
  ⟨fun v => (c.node v).image f, c.link⟩

/-- The state of a node, or every state its call may end in, meets `K`. -/
def Mode.Meets (K : S → Prop) : Mode τ β S M → Prop
  | .fresh _ => True
  | .idle s => K s
  | .busy p => p.Ensures K

/-- The nodes meet the conditions of their tasks. -/
def Config.Meets (K : T → S → Prop) (tasks : V → List T) (c : Config V τ β S M) : Prop :=
  ∀ v t, (tasks v)[(c.node v).finished]? = some t → (c.node v).mode.Meets (K t)

variable {sys : System V τ β T S M E} {sys' : System V τ β T S' M E} {g : T → T} {f : S → S'}
  {K : T → S → Prop} {tasks : V → List T} {F : Flow τ} {c c' : Config V τ β S M}
  {d : Config V τ β S' M} {a : Label V τ β E} {ls : List (Label V τ β E)}

omit [DecidableEq V] [DecidableEq τ] in
theorem meets_start (m : V → M) : (Config.start m : Config V τ β S M).Meets K tasks :=
  fun _ _ _ => trivial

omit [DecidableEq τ] in
theorem image_setNode (c : Config V τ β S M) (v : V) (n : Node τ β S M) :
    (c.setNode v n).image f = (c.image f).setNode v (n.image f) := by
  refine Config.ext (funext fun w => ?_) rfl
  change ((c.setNode v n).node w).image f = ((c.image f).setNode v (n.image f)).node w
  by_cases e : w = v
  · subst e
    rw [Config.setNode_self, Config.setNode_self]
  · rw [Config.setNode_ne _ _ e, Config.setNode_ne _ _ e]
    rfl

omit [DecidableEq τ] in
theorem image_setMode (c : Config V τ β S M) (v : V) (m : Mode τ β S M) :
    (c.setMode v m).image f = (c.image f).setMode v (m.image f) := image_setNode ..

omit [DecidableEq τ] in
theorem Config.Meets.setNode (h : c.Meets K tasks) {v : V} {n : Node τ β S M}
    (hn : ∀ t, (tasks v)[n.finished]? = some t → n.mode.Meets (K t)) : (c.setNode v n).Meets K tasks := by
  intro w t ht
  by_cases e : w = v
  · subst e
    rw [Config.setNode_self] at ht ⊢
    exact hn t ht
  · rw [Config.setNode_ne _ _ e] at ht ⊢
    exact h w t ht

omit [DecidableEq τ] in
theorem Config.Meets.setMode (h : c.Meets K tasks) {v : V} {m : Mode τ β S M}
    (hm : ∀ t, (tasks v)[(c.node v).finished]? = some t → m.Meets (K t)) :
    (c.setMode v m).Meets K tasks := h.setNode hm

omit [DecidableEq V] in
theorem Config.Meets.setLink (h : c.Meets K tasks) (l : τ) (q : List β) :
    (c.setLink l q).Meets K tasks := h

omit [DecidableEq V] [DecidableEq τ] in
theorem task_image {v : V} {k : Nat} {t : T} (h : ((tasks v).map g)[k]? = some t) :
    ∃ t', (tasks v)[k]? = some t' ∧ t = g t' := by
  rw [List.getElem?_map, Option.map_eq_some_iff] at h
  obtain ⟨t', ht', rfl⟩ := h
  exact ⟨t', ht', rfl⟩

/-- **A step, and its image.** -/
theorem Step.image (H : Images sys sys' g f K tasks) (hc : c.Meets K tasks)
    (hs : Step sys F (fun v => (tasks v).map g) c a c') :
    Step sys' F tasks (c.image f) a (c'.image f) ∧ c'.Meets K tasks := by
  cases hs with
  | call v t m ht hm =>
    obtain ⟨t, ht', rfl⟩ := task_image ht
    have hi := H.init v t (List.mem_of_getElem? ht') m
    refine ⟨?_, hc.setMode fun u hu => ?_⟩
    · rw [image_setMode]
      change Step sys' F tasks (c.image f) _ ((c.image f).setMode v (.busy ((sys.init (g t) m).map f)))
      rw [← hi.eq]
      exact .call _ v t m ht' (congrArg (Mode.image f) hm)
    · obtain rfl : u = t := Option.some.inj (hu.symm.trans ht')
      exact hi.ensures
  | step v t s e ht hm =>
    obtain ⟨t, ht', rfl⟩ := task_image ht
    have hK : K t s := by
      have := hc v t ht'
      rwa [hm] at this
    have hi := H.step v t (List.mem_of_getElem? ht') e s hK
    refine ⟨?_, hc.setMode fun u hu => ?_⟩
    · rw [image_setMode]
      change Step sys' F tasks (c.image f) _ ((c.image f).setMode v (.busy ((sys.step (g t) e s).map f)))
      rw [← hi.eq]
      exact .step _ v t (f s) e ht' (congrArg (Mode.image f) hm)
    · obtain rfl : u = t := Option.some.inj (hu.symm.trans ht')
      exact hi.ensures
  | push v l data k n hm hn hF =>
    refine ⟨?_, Config.Meets.setLink (hc.setMode fun u hu => ?_) l _⟩
    · have e : ((c.setMode v (.busy (k (some n)))).setLink l (c.link l ++ data.take n)).image f =
          ((c.image f).setMode v (.busy ((k (some n)).map f))).setLink l (c.link l ++ data.take n) :=
        congrArg (fun x : Config V τ β S' M => x.setLink l (c.link l ++ data.take n))
          (image_setMode c v (.busy (k (some n))))
      rw [e]
      exact .push (c.image f) v l data (fun n => (k n).map f) n (congrArg (Mode.image f) hm) hn hF
    · have := hc v u hu
      rw [hm] at this
      exact this (some n)
  | pull v l size k n hm hn hq hF =>
    refine ⟨?_, Config.Meets.setLink (hc.setMode fun u hu => ?_) l _⟩
    · have e : ((c.setMode v (.busy (k (some ((c.link l).take n))))).setLink l
          ((c.link l).drop n)).image f =
          ((c.image f).setMode v (.busy ((k (some ((c.link l).take n))).map f))).setLink l
            ((c.link l).drop n) :=
        congrArg (fun x : Config V τ β S' M => x.setLink l ((c.link l).drop n))
          (image_setMode c v (.busy (k (some ((c.link l).take n)))))
      rw [e]
      exact .pull (c.image f) v l size (fun bs => (k bs).map f) n (congrArg (Mode.image f) hm) hn hq hF
    · have := hc v u hu
      rw [hm] at this
      exact this (some ((c.link l).take n))
  | ret v t s ht hm hd =>
    obtain ⟨t, ht', rfl⟩ := task_image ht
    have hK : K t s := by
      have := hc v t ht'
      rwa [hm] at this
    refine ⟨?_, hc.setMode fun u hu => ?_⟩
    · rw [image_setMode]
      exact .ret _ v t (f s) ht' (congrArg (Mode.image f) hm)
        ((H.done v t (List.mem_of_getElem? ht') s hK).trans hd)
    · obtain rfl : u = t := Option.some.inj (hu.symm.trans ht')
      exact hK
  | finish v t s ht hm hd =>
    obtain ⟨t, ht', rfl⟩ := task_image ht
    have hK : K t s := by
      have := hc v t ht'
      rwa [hm] at this
    refine ⟨?_, hc.setNode fun u hu => trivial⟩
    rw [image_setNode]
    have hstep : Step sys' F tasks (c.image f) ⟨v, (c.node v).finished, .finish⟩ _ :=
      .finish (c.image f) v t (f s) ht' (congrArg (Mode.image f) hm)
        ((H.done v t (List.mem_of_getElem? ht') s hK).trans hd)
    rw [H.mem] at hstep
    exact hstep

omit [DecidableEq V] [DecidableEq τ] in
theorem image_fresh {x : Mode τ β S M} {m : M} (h : x.image f = .fresh m) : x = .fresh m := by
  cases x with
  | fresh m' =>
    cases h
    rfl
  | idle s => cases h
  | busy p => cases h

omit [DecidableEq V] [DecidableEq τ] in
theorem image_idle {x : Mode τ β S M} {s' : S'} (h : x.image f = .idle s') :
    ∃ s, x = .idle s ∧ s' = f s := by
  cases x with
  | fresh m => cases h
  | idle s =>
    cases h
    exact ⟨s, rfl, rfl⟩
  | busy p => cases h

omit [DecidableEq V] [DecidableEq τ] in
theorem image_busy {x : Mode τ β S M} {q : Prog τ β S'} (h : x.image f = .busy q) :
    ∃ p, x = .busy p ∧ q = p.map f := by
  cases x with
  | fresh m => cases h
  | idle s => cases h
  | busy p =>
    cases h
    exact ⟨p, rfl, rfl⟩

omit [DecidableEq V] [DecidableEq τ] in
theorem task_of_image {v : V} {k : Nat} {t : T} (h : (tasks v)[k]? = some t) :
    ((tasks v).map g)[k]? = some (g t) := by
  rw [List.getElem?_map, h]
  rfl

/-- **Every step of the image** is the image of a step. -/
theorem Step.preimage (H : Images sys sys' g f K tasks) (hc : c.Meets K tasks)
    (hs : Step sys' F tasks (c.image f) a d) :
    ∃ c', Step sys F (fun v => (tasks v).map g) c a c' ∧ d = c'.image f := by
  cases hs with
  | call v t m ht hm =>
    have ht : (tasks v)[(c.node v).finished]? = some t := ht
    refine ⟨_, .call c v (g t) m (task_of_image ht) (image_fresh hm), ?_⟩
    rw [image_setMode, (H.init v t (List.mem_of_getElem? ht) m).eq]
    rfl
  | step v t s' e ht hm =>
    have ht : (tasks v)[(c.node v).finished]? = some t := ht
    obtain ⟨s, hmode, rfl⟩ := image_idle hm
    have hK : K t s := by
      have := hc v t ht
      rwa [hmode] at this
    refine ⟨_, .step c v (g t) s e (task_of_image ht) hmode, ?_⟩
    rw [image_setMode, (H.step v t (List.mem_of_getElem? ht) e s hK).eq]
    rfl
  | push v l data k n hm hn hF =>
    obtain ⟨p, hmode, hp⟩ := image_busy hm
    cases p with
    | send l' data' k' =>
      cases hp
      refine ⟨_, .push c v l data k' n hmode hn hF, ?_⟩
      exact congrArg (fun x : Config V τ β S' M => x.setLink l (c.link l ++ data.take n))
        (image_setMode c v (.busy (k' (some n)))).symm
    | ret | fail | recv => cases hp
  | pull v l size k n hm hn hq hF =>
    obtain ⟨p, hmode, hp⟩ := image_busy hm
    cases p with
    | recv l' size' k' =>
      cases hp
      refine ⟨_, .pull c v l size k' n hmode hn hq hF, ?_⟩
      exact congrArg (fun x : Config V τ β S' M => x.setLink l ((c.link l).drop n))
        (image_setMode c v (.busy (k' (some ((c.link l).take n))))).symm
    | ret | fail | send => cases hp
  | ret v t s' ht hm hd =>
    have ht : (tasks v)[(c.node v).finished]? = some t := ht
    obtain ⟨p, hmode, hp⟩ := image_busy hm
    cases p with
    | ret s =>
      cases hp
      have hK : K t s := by
        have := hc v t ht
        rwa [hmode] at this
      rw [H.done v t (List.mem_of_getElem? ht) s hK] at hd
      exact ⟨_, .ret c v (g t) s (task_of_image ht) hmode hd, (image_setMode c v (.idle s)).symm⟩
    | fail | send | recv => cases hp
  | finish v t s' ht hm hd =>
    have ht : (tasks v)[(c.node v).finished]? = some t := ht
    obtain ⟨p, hmode, hp⟩ := image_busy hm
    cases p with
    | ret s =>
      cases hp
      have hK : K t s := by
        have := hc v t ht
        rwa [hmode] at this
      rw [H.done v t (List.mem_of_getElem? ht) s hK] at hd
      refine ⟨_, .finish c v (g t) s (task_of_image ht) hmode hd, ?_⟩
      rw [image_setNode, H.mem]
      rfl
    | fail | send | recv => cases hp

/-! ## 3. Runs -/

/-- **A run, and its image.** -/
theorem Run.image (H : Images sys sys' g f K tasks) {c₀ : Config V τ β S M} (h₀ : c₀.Meets K tasks)
    (h : Run sys F (fun v => (tasks v).map g) c₀ ls c) :
    Run sys' F tasks (c₀.image f) ls (c.image f) ∧ c.Meets K tasks := by
  induction h with
  | nil => exact ⟨.nil, h₀⟩
  | snoc _ hs ih =>
    obtain ⟨hs', hmeets⟩ := hs.image H ih.2
    exact ⟨.snoc ih.1 hs', hmeets⟩

/-- **Every run of the image** is the image of a run. -/
theorem Run.preimage (H : Images sys sys' g f K tasks) {c₀ : Config V τ β S M} (h₀ : c₀.Meets K tasks)
    (h : Run sys' F tasks (c₀.image f) ls d) :
    ∃ c, Run sys F (fun v => (tasks v).map g) c₀ ls c ∧ d = c.image f := by
  induction h with
  | nil => exact ⟨c₀, .nil, rfl⟩
  | snoc _ hs ih =>
    obtain ⟨c, hrun, rfl⟩ := ih
    obtain ⟨c', hs', rfl⟩ := hs.preimage H (hrun.image H h₀).2
    exact ⟨c', .snoc hrun hs', rfl⟩

/-! ## 4. Systems with the same calls -/

omit [DecidableEq V] [DecidableEq τ] in
theorem Config.image_id (c : Config V τ β S M) : c.image id = c := by
  refine Config.ext (funext fun v => ?_) rfl
  change (⟨(c.node v).finished, (c.node v).mode.image id, (c.node v).past⟩ : Node τ β S M) = c.node v
  have hmode : (c.node v).mode.image id = (c.node v).mode := by
    cases (c.node v).mode with
    | fresh m => rfl
    | idle s => rfl
    | busy p => exact congrArg Mode.busy p.map_id
  rw [hmode]

/-- What the nodes meet they meet in every state of a run. -/
theorem Run.meets {sys' : System V τ β T S M E} (H : Images sys sys' id id K tasks)
    {c₀ : Config V τ β S M} (h₀ : c₀.Meets K tasks) (h : Run sys F tasks c₀ ls c) : c.Meets K tasks := by
  have htasks : (fun v => (tasks v).map id) = tasks := funext fun v => List.map_id (tasks v)
  rw [← htasks] at h
  exact (h.image H h₀).2

/-- **Two systems with the same calls** have the same runs. -/
theorem Run.same {sys' : System V τ β T S M E} (H : Images sys sys' id id K tasks)
    {c₀ : Config V τ β S M} (h₀ : c₀.Meets K tasks) :
    Run sys' F tasks c₀ ls c ↔ Run sys F tasks c₀ ls c := by
  have htasks : (fun v => (tasks v).map id) = tasks := funext fun v => List.map_id (tasks v)
  constructor
  · intro h
    rw [← Config.image_id c₀] at h
    obtain ⟨c', hrun, rfl⟩ := h.preimage H h₀
    rw [htasks] at hrun
    rwa [Config.image_id]
  · intro h
    rw [← htasks] at h
    have himage := (h.image H h₀).1
    rwa [Config.image_id, Config.image_id] at himage

end Systems

end OriginCCL.Net
