import Guigu.Core.Provider
import Guigu.Library.KeyOrder
import Guigu.Library.OnceCell
import Mathlib.Data.String.Basic

/-! Tool plugins: the registry, the tools it assembles, and the instances that these make when they
are executed. -/
namespace Guigu

/-- The declaration of a tool whose body is made when it is first executed. -/
structure DeferredToolSpec where
  name : String
  description : String
  parameters : Option Json
  resourceScope : ResourceScope
  deriving DecidableEq, Repr

/-- What a plugin declares; what its `instantiate` comes to is an input of the steps. -/
structure Plugin where
  id : String
  tools : List DeferredToolSpec
  deriving DecidableEq, Repr

inductive PluginError where
  | duplicatePlugin (id : String)
  | pluginNotFound (id : String)
  | toolNotDeclared (name : String)
  | instantiation (plugin tool source : String)
  deriving DecidableEq, Repr

namespace PluginError

def display : PluginError → String
  | duplicatePlugin id => "plugin already registered: " ++ id
  | pluginNotFound id => "plugin not found: " ++ id
  | toolNotDeclared name => "tool `" ++ name ++ "` not declared by plugin"
  | instantiation plugin tool source =>
    "plugin `" ++ plugin ++ "` failed to instantiate tool `" ++ tool ++ "`: " ++ source

end PluginError

/-- `ι` are the instances that plugins make; the cell is tokio's `OnceCell`. -/
structure PluginTool (ι : Type*) where
  spec : DeferredToolSpec
  plugin : Plugin
  name : String
  inner : OnceCell ι PluginError

namespace PluginTool

variable {ι : Type*}

def new (plugin : Plugin) (spec : DeferredToolSpec) : PluginTool ι :=
  ⟨spec, plugin, spec.name, .empty⟩

def tryNew (plugin : Plugin) (spec : DeferredToolSpec) : Except PluginError (PluginTool ι) :=
  if plugin.tools.any fun s => s.name = spec.name then .ok (new plugin spec)
  else .error (.toolNotDeclared spec.name)

/-- What the execution of a task returns once its instance is there, or not; `run` executes an
instance with the arguments of the task. -/
def outcome (t : PluginTool ι) {ρ : Type*} (run : ι → Except String ρ) (i : ℕ) :
    Option (Except String ρ) :=
  match t.inner.task i with
  | .got instance' => some (run instance')
  | .failed e => some (.error e.display)
  | .idle | .waiting | .making | .dropped => none

end PluginTool

/-- The plugins by their identifiers, in the order in which a hash map yields them. -/
structure PluginRegistry where
  plugins : List Plugin
  nodup : (plugins.map Plugin.id).Nodup

namespace PluginRegistry

def new : PluginRegistry := ⟨[], List.nodup_nil⟩

def register (r : PluginRegistry) (p : Plugin) : Except PluginError PluginRegistry :=
  if h : p.id ∈ r.plugins.map Plugin.id then .error (.duplicatePlugin p.id)
  else .ok ⟨p :: r.plugins, List.nodup_cons.mpr ⟨h, r.nodup⟩⟩

def get (r : PluginRegistry) (id : String) : Option Plugin := r.plugins.find? fun p => p.id = id

/-- The plugin that is removed, if there is one, and the registry without it. -/
def unregister (r : PluginRegistry) (id : String) : Option Plugin × PluginRegistry :=
  (r.get id, ⟨r.plugins.filter fun p => p.id ≠ id, r.nodup.sublist (List.filter_sublist.map _)⟩)

/-- The identifiers, of which a hash map yields the keys in any order. -/
def list (entries : List Plugin) : List String := KeyOrder.sort id (entries.map Plugin.id)

/-- All tools of all plugins; a hash map yields its entries in any order. -/
def tools {ι : Type*} (entries : List Plugin) : List (PluginTool ι) :=
  (KeyOrder.sort Plugin.id entries).flatMap fun p => p.tools.map (PluginTool.new p)

end PluginRegistry

/-- The registry, and the tools that it has handed out so far. -/
structure PluginHost (ι : Type*) where
  registry : PluginRegistry
  tools : List (PluginTool ι)

inductive PluginHostAction (ι : Type*) where
  | register (p : Plugin)
  | unregister (id : String)
  /-- The tools of all plugins are handed out. -/
  | assemble
  /-- An execution of the tool goes on. -/
  | execute (tool : ℕ) (a : OnceCell.Action ι PluginError)

namespace PluginHost

variable {ι : Type*}

def new : PluginHost ι := ⟨.new, []⟩

def step (s : PluginHost ι) : PluginHostAction ι → PluginHost ι
  | .register p =>
    match s.registry.register p with
    | .ok registry => { s with registry := registry }
    | .error _ => s
  | .unregister id => { s with registry := (s.registry.unregister id).2 }
  | .assemble => { s with tools := s.tools ++ PluginRegistry.tools s.registry.plugins }
  | .execute tool a =>
    { s with tools := s.tools.modify tool fun t => { t with inner := t.inner.step a } }

/-- The plugin that each identifier stands for, as registering and unregistering make it. -/
def current (m : String → Option Plugin) : PluginHostAction ι → String → Option Plugin
  | .register p => if (m p.id).isNone then Function.update m p.id (some p) else m
  | .unregister id => Function.update m id none
  | .assemble | .execute _ _ => m

end PluginHost

/-- Of the instances of a tool at most one is made, and at most one at a time is attempted; every
execution that has an instance has that one, and one that has none failed in its own attempt. The
declaration of the tool stays as it was handed out. -/
structure PluginTool.InstantiatedOnce {ι : Type*} (t : PluginTool ι) : Prop where
  declared : t.spec ∈ t.plugin.tools ∧ t.name = t.spec.name
  inTurn : ∀ i j, t.inner.task i = .making → t.inner.task j = .making → i = j
  once : ∀ i j v w, (i, Except.ok v) ∈ t.inner.outcomes → (j, Except.ok w) ∈ t.inner.outcomes →
    i = j ∧ v = w
  shared : ∀ i v, t.inner.task i = .got v → ∃ j, (j, Except.ok v) ∈ t.inner.outcomes
  own : ∀ i e, t.inner.task i = .failed e → (i, .error e) ∈ t.inner.outcomes
  oneAttempt : (t.inner.outcomes.map Prod.fst).Nodup
  settled : ∀ i v, (i, Except.ok v) ∈ t.inner.outcomes → ∀ j, t.inner.task j ≠ .making
  lazily : (∀ i, t.inner.task i = .idle) → t.inner.begun = []

/-- What is assembled of plugins depends on what their identifiers stand for only: the identifiers
ascend, and a name finds the first tool of this name of the plugin with the least identifier among
those that declare the name. -/
structure PluginRegistry.Assembles (ι : Type*) (m : String → Option Plugin)
    (entries : List Plugin) : Prop where
  ids : ∀ id, id ∈ list entries ↔ (m id).isSome = true
  ascending : (list entries).Pairwise (· < ·)
  canonical : ∀ entries' : List Plugin, entries'.Perm entries →
    (tools entries' : List (PluginTool ι)) = tools entries ∧ list entries' = list entries
  found : ∀ name (t : PluginTool ι), (tools entries).find? (fun t => t.spec.name = name) = some t ↔
    ∃ p, m p.id = some p ∧ t = .new p t.spec ∧
      p.tools.find? (fun spec => spec.name = name) = some t.spec ∧
      ∀ q, m q.id = some q → (∃ spec ∈ q.tools, spec.name = name) → p.id ≤ q.id

namespace PluginTool

variable {ι : Type*} {t : PluginTool ι}

theorem instantiatedOnce (hdeclared : t.spec ∈ t.plugin.tools ∧ t.name = t.spec.name)
    (h : t.inner.Sound) : t.InstantiatedOnce where
  declared := hdeclared
  inTurn i j hi hj := by
    rw [← h.turn] at hi hj
    exact Option.some.inj (hi.symm.trans hj)
  once i j v w hi hj := h.success_unique hi hj
  shared i v hi := h.made v (h.got i v hi)
  own i e hi := h.failed i e hi
  oneAttempt := h.once.sublist ((List.sublist_append_left _ _).trans h.outcomes)
  settled i v hi j hj := by
    have hturn := (h.turn j).mpr hj
    cases (h.value_of_turn j hturn).symm.trans (h.success i v hi).1
  lazily hidle := by
    rw [List.eq_nil_iff_forall_not_mem]
    exact fun i => h.untried i (.inl (hidle i))

end PluginTool

namespace PluginHost

variable {ι : Type*} {s : PluginHost ι}

/-- Every tool that has been handed out is declared by its plugin, and its cell is sound. -/
def Sound (s : PluginHost ι) : Prop :=
  ∀ t ∈ s.tools, (t.spec ∈ t.plugin.tools ∧ t.name = t.spec.name) ∧ t.inner.Sound

theorem Sound.step (h : Sound s) (a : PluginHostAction ι) : Sound (s.step a) := by
  cases a with
  | register p =>
    simp only [PluginHost.step]
    split
    · exact h
    · exact h
  | unregister id => exact h
  | assemble =>
    intro t ht
    obtain ht | ht := List.mem_append.mp ht
    · exact h t ht
    · obtain ⟨p, -, ht⟩ := List.mem_flatMap.mp ht
      obtain ⟨spec, hspec, rfl⟩ := List.mem_map.mp ht
      exact ⟨⟨hspec, rfl⟩, .empty⟩
  | execute tool a =>
    intro t ht
    obtain ⟨i, hi, rfl⟩ := List.getElem_of_mem ht
    have hold : i < s.tools.length := (List.length_modify _ _ _).symm ▸ hi
    obtain ⟨hdeclared, hsound⟩ := h _ (List.getElem_mem hold)
    simp only [PluginHost.step, List.getElem_modify]
    split
    · exact ⟨hdeclared, hsound.step a⟩
    · exact ⟨hdeclared, hsound⟩

/-- However plugins come and go and executions interleave, fail and are dropped, a tool that has
been handed out makes one instance at most, and all its executions share it. -/
theorem instantiated_once (as : List (PluginHostAction ι)) :
    Runs.Throughout step (fun s => ∀ t ∈ s.tools, t.InstantiatedOnce) new as := by
  have hstep : ∀ (s : PluginHost ι) a, Sound s → Sound (step s a) := fun _ a h => h.step a
  refine Runs.always hstep ?_ ?_ as
  · intro s h t ht
    obtain ⟨hdeclared, hsound⟩ := h t ht
    exact PluginTool.instantiatedOnce hdeclared hsound
  · exact fun t ht => absurd ht List.not_mem_nil

end PluginHost

namespace PluginRegistry

variable {r : PluginRegistry}

theorem get_id {id : String} {p : Plugin} (h : r.get id = some p) : p.id = id :=
  of_decide_eq_true (List.find?_some (p := fun p : Plugin => decide (p.id = id)) h)

theorem mem_plugins {p : Plugin} : p ∈ r.plugins ↔ r.get p.id = some p := by
  constructor
  · intro hp
    obtain ⟨q, hq⟩ : ∃ q, r.get p.id = some q := by
      rw [← Option.isSome_iff_exists, get, List.find?_isSome]
      exact ⟨p, hp, decide_eq_true rfl⟩
    rw [hq, List.inj_on_of_nodup_map r.nodup (List.mem_of_find?_eq_some hq) hp (get_id hq)]
  · exact List.mem_of_find?_eq_some

theorem get_eq_none {id : String} : r.get id = none ↔ id ∉ r.plugins.map Plugin.id := by
  rw [get, List.find?_eq_none]
  simp

/-- Registering under a new identifier makes it stand for the plugin, and nothing else changes. -/
theorem get_register {r' : PluginRegistry} {p : Plugin} (h : r.register p = .ok r') :
    (r.get p.id).isNone = true ∧ r'.get = Function.update r.get p.id (some p) := by
  unfold register at h
  split_ifs at h with hmem
  cases h
  refine ⟨Option.isNone_iff_eq_none.mpr (get_eq_none.mpr hmem), funext fun id => ?_⟩
  by_cases hid : id = p.id
  · rw [hid, Function.update_self]
    exact List.find?_cons_of_pos (decide_eq_true rfl)
  · rw [Function.update_of_ne hid]
    exact List.find?_cons_of_neg (by simpa using Ne.symm hid)

theorem register_error {p : Plugin} {e : PluginError} (h : r.register p = .error e) :
    (r.get p.id).isNone = false := by
  unfold register at h
  split_ifs at h with hmem
  rw [Option.isNone_eq_false_iff, ← Option.ne_none_iff_isSome]
  exact fun hnone => get_eq_none.mp hnone hmem

theorem get_unregister (r : PluginRegistry) (id : String) :
    (r.unregister id).2.get = Function.update r.get id none := by
  funext id'
  by_cases hid : id' = id
  · rw [hid, Function.update_self, get_eq_none]
    simp [unregister]
  · rw [Function.update_of_ne hid]
    show (r.plugins.filter _).find? _ = _
    rw [List.find?_filter, get]
    congr 1
    funext p
    by_cases hp : p.id = id'
    · simp [hp, hid]
    · simp [hp]

/-- What is assembled of a registry is what its identifiers stand for. -/
theorem assembles (ι : Type*) (r : PluginRegistry) : Assembles ι r.get r.plugins := by
  have hascending : (KeyOrder.sort Plugin.id r.plugins).Pairwise fun p q => p.id < q.id :=
    KeyOrder.sort_ascending r.nodup
  constructor
  · intro id
    rw [list, KeyOrder.mem_sort, ← Option.not_isNone, Bool.not_eq_true', Option.isNone_eq_false_iff,
      ← Option.ne_none_iff_isSome, ne_eq, get_eq_none, not_not]
  · have hnodup : ((r.plugins.map Plugin.id).map id).Nodup := by
      rw [List.map_id]
      exact r.nodup
    exact KeyOrder.sort_ascending hnodup
  · intro entries' hperm
    have hnodup := (hperm.map Plugin.id).nodup_iff.mpr r.nodup
    constructor
    · rw [tools, tools, KeyOrder.sort_eq_of_perm hnodup hperm]
    · have hids : ((entries'.map Plugin.id).map id).Nodup := by
        rw [List.map_id]
        exact hnodup
      exact KeyOrder.sort_eq_of_perm hids (hperm.map Plugin.id)
  · intro name t
    have hfind : ∀ p : Plugin, (p.tools.map (@PluginTool.new ι p)).find?
        (fun t => t.spec.name = name) =
          (p.tools.find? fun spec => spec.name = name).map (PluginTool.new p) := by
      intro p
      rw [List.find?_map]
      rfl
    rw [tools, List.find?_flatMap, List.findSome?_eq_some_iff]
    simp only [hfind]
    constructor
    · rintro ⟨before, p, after, hsort, hp, hbefore⟩
      obtain ⟨spec, hspec, rfl⟩ := Option.map_eq_some_iff.mp hp
      have hmem : p ∈ KeyOrder.sort Plugin.id r.plugins := by simp [hsort]
      refine ⟨p, mem_plugins.mp (KeyOrder.mem_sort.mp hmem), rfl, hspec, ?_⟩
      intro q hq hdeclares
      have hqmem : q ∈ KeyOrder.sort Plugin.id r.plugins :=
        KeyOrder.mem_sort.mpr (mem_plugins.mpr hq)
      rw [hsort] at hqmem hascending
      obtain hfront | hback := List.mem_append.mp hqmem
      · have hnone := Option.map_eq_none_iff.mp (hbefore q hfront)
        obtain ⟨spec', hspec', hname⟩ := hdeclares
        exact absurd hname (by simpa using List.find?_eq_none.mp hnone spec' hspec')
      · obtain rfl | hafter := List.mem_cons.mp hback
        · exact le_rfl
        · have hpairs := (List.pairwise_append.mp hascending).2.1
          exact ((List.pairwise_cons.mp hpairs).1 q hafter).le
    · rintro ⟨p, hp, ht, hspec, hleast⟩
      have hpmem : p ∈ KeyOrder.sort Plugin.id r.plugins :=
        KeyOrder.mem_sort.mpr (mem_plugins.mpr hp)
      obtain ⟨before, after, hsort⟩ := List.append_of_mem hpmem
      refine ⟨before, p, after, hsort, ?_, ?_⟩
      · rw [hspec, ht]
        rfl
      · intro q hq
        rw [Option.map_eq_none_iff, List.find?_eq_none]
        intro spec' hspec' hname
        rw [hsort] at hascending
        have hlt := (List.pairwise_append.mp hascending).2.2 q hq p (List.mem_cons_self ..)
        have hqmem : q ∈ KeyOrder.sort Plugin.id r.plugins := by simp [hsort, hq]
        have hle := hleast q (mem_plugins.mp (KeyOrder.mem_sort.mp hqmem))
          ⟨spec', hspec', of_decide_eq_true hname⟩
        exact absurd hlt (not_lt.mpr hle)

end PluginRegistry

namespace PluginHost

variable {ι : Type*}

theorem get_step (s : PluginHost ι) (a : PluginHostAction ι) :
    (s.step a).registry.get = current s.registry.get a := by
  cases a with
  | register p =>
    simp only [step, current]
    split
    · rename_i r' hr
      obtain ⟨hnone, hget⟩ := PluginRegistry.get_register hr
      rw [if_pos hnone]
      exact hget
    · rename_i e hr
      rw [PluginRegistry.register_error hr]
      rfl
  | unregister id => exact PluginRegistry.get_unregister s.registry id
  | assemble | execute tool a => rfl

/-- In every run the assembled tools are those of the plugins that are registered at its end. -/
theorem assembled (as : List (PluginHostAction ι)) :
    PluginRegistry.Assembles ι (as.foldl current fun _ => none)
      (Runs.run step (new : PluginHost ι) as).registry.plugins := by
  have hget : ∀ (as : List (PluginHostAction ι)) (s : PluginHost ι),
      (Runs.run step s as).registry.get = as.foldl current s.registry.get := by
    intro as
    induction as with
    | nil => exact fun _ => rfl
    | cons a as ih =>
      intro s
      rw [Runs.run_cons, ih, get_step, List.foldl_cons]
  have hassembles := PluginRegistry.assembles ι (Runs.run step (new : PluginHost ι) as).registry
  rwa [hget as new] at hassembles

end PluginHost

end Guigu
