import DuckRun.Runtime.Scheduler
import DuckRun.Lib.Folds
import Mathlib.Data.List.Nodup
/-!
# Job discovery

`JobScanner.Build` goes over the concrete types of the assemblies and asks
reflection for the methods of each and for their `[DuckRunJob]` attribute.
`GetMethods` returns inherited instance methods too, and the attribute is
inherited by overrides, so the same declaration may be found on several types.
-/

namespace DuckRun.Runtime

open DuckRun.Lib

/-! ## Reflection -/

/-- An attribute that `DuckRunJobAttribute`'s constructor has made. -/
structure AppliedAttribute extends DuckRunJobAttribute where
  name_given : isNullOrWhiteSpace name.toList = false
  cron_given : isNullOrWhiteSpace cron.toList = false

/-- A method as its type declares it. `slot` is the virtual method it introduces
or overrides. -/
structure MethodDeclaration where
  method : MethodInfo
  isPrivate : Bool
  slot : Option Nat
  duckRunJob : Option AppliedAttribute

structure TypeInfo where
  fullName : String
  isAbstract : Bool
  isInterface : Bool
  methods : List MethodDeclaration

/-- A type with all its base types. `object` declares no jobs. -/
inductive ClrType where
  | object
  | extends_ (info : TypeInfo) (base : ClrType)

def ClrType.fullName : ClrType → String
  | .object => "System.Object"
  | .extends_ info _ => info.fullName

/-- `IsAbstract` and `IsInterface` are both false. -/
def ClrType.concrete : ClrType → Bool
  | .object => true
  | .extends_ info _ => !info.isAbstract && !info.isInterface

/-- The methods the type itself declares. -/
def ClrType.declared : ClrType → List MethodDeclaration
  | .object => []
  | .extends_ info _ => info.methods

/-- A method as `GetMethods` returns it, with the base of its declaring type. -/
structure Member where
  declaration : MethodDeclaration
  base : ClrType

/-- The instance methods a derived type gets from this one: no private ones, and
none that has been overridden. -/
def ClrType.inheritable : ClrType → List Nat → List Member
  | .object, _ => []
  | .extends_ info base, overridden =>
    ((info.methods.filter fun m => !m.isPrivate && !m.method.isStatic && !m.slot.any (overridden.contains ·)).map
      fun m => ⟨m, base⟩) ++ base.inheritable (overridden ++ info.methods.filterMap MethodDeclaration.slot)

/-- `GetMethods(Public | NonPublic | Instance | Static)`. -/
def ClrType.getMethods : ClrType → List Member
  | .object => []
  | .extends_ info base =>
    info.methods.map (⟨·, base⟩) ++ base.inheritable (info.methods.filterMap MethodDeclaration.slot)

/-- The attribute that a method overriding `slot` inherits. -/
def ClrType.inheritedAttribute : ClrType → Nat → Option AppliedAttribute
  | .object, _ => none
  | .extends_ info base, slot =>
    match (info.methods.find? fun m => m.slot = some slot).bind MethodDeclaration.duckRunJob with
    | some attr => some attr
    | none => base.inheritedAttribute slot

/-- `GetCustomAttribute<DuckRunJobAttribute>()`. -/
def Member.getCustomAttribute (m : Member) : Option AppliedAttribute :=
  match m.declaration.duckRunJob with
  | some attr => some attr
  | none => m.declaration.slot.bind m.base.inheritedAttribute

/-! ## The scan -/

inductive DiscoveryException where
  /-- "Invalid cron expression '…' on ….…: …", which ends in the parser's own message. -/
  | invalidCron (expression fullName method : String)
  | duplicateName (message : String)

section Scan
variable {ε : Type} (cronos : Cronos ε) (fold : String → String)

def validateCron (expression : String) (type : ClrType) (method : MethodInfo) : Except DiscoveryException Unit :=
  match cronos.parseCron expression with
  | some _ => .ok ()
  | none => .error (.invalidCron expression type.fullName method.name)

/-- One round of the loop over a type's methods. -/
def scanMethod (type : ClrType) (descriptors : List JobDescriptor) (m : Member) :
    Except DiscoveryException (List JobDescriptor) :=
  match m.getCustomAttribute with
  | none => .ok descriptors
  | some attr => do
    validateCron cronos attr.cron type m.declaration.method
    return descriptors ++ [describe attr.toDuckRunJobAttribute type.fullName m.declaration.method]

def scanType (descriptors : List JobDescriptor) (type : ClrType) : Except DiscoveryException (List JobDescriptor) :=
  if type.concrete then type.getMethods.foldlM (scanMethod cronos type) descriptors else .ok descriptors

/-- An assembly as the types that load. -/
def scanAssembly (descriptors : List JobDescriptor) (assembly : List ClrType) :
    Except DiscoveryException (List JobDescriptor) :=
  assembly.foldlM (scanType cronos) descriptors

/-- One round of `JobRegistry`'s constructor. -/
def JobRegistry.add (registry : JobRegistry fold) (d : JobDescriptor) : Except DiscoveryException (JobRegistry fold) :=
  match h : findByName fold registry.all d.name with
  | some existing =>
    .error (.duplicateName (s!"Duplicate DuckRun job name '{d.name}'. Already registered for " ++
      s!"{existing.declaringType}.{existing.method.name}, now also seen on {d.declaringType}.{d.method.name}."))
  | none => .ok ⟨registry.all ++ [d], by
      have hnone := List.find?_eq_none.1 h
      rw [List.map_append, List.nodup_append]
      refine ⟨registry.distinct, List.nodup_singleton _, ?_⟩
      intro name hname other hother
      obtain ⟨job, hjob, rfl⟩ := List.mem_map.1 hname
      rw [List.map_singleton, List.mem_singleton] at hother
      rw [hother]
      exact fun heq => hnone job hjob (decide_eq_true heq)⟩

def JobRegistry.ofDescriptors (descriptors : List JobDescriptor) : Except DiscoveryException (JobRegistry fold) :=
  descriptors.foldlM (JobRegistry.add fold) ⟨[], List.nodup_nil⟩

/-- `JobScanner.Build`. -/
def JobScanner.build (assembliesToScan : List (List ClrType)) (explicitJobs : List JobDescriptor) :
    Except DiscoveryException (JobRegistry fold) := do
  let descriptors ← assembliesToScan.foldlM (scanAssembly cronos) explicitJobs
  JobRegistry.ofDescriptors fold descriptors

end Scan

/-! ## The registry -/

section Registry
variable {fold : String → String}

theorem findByName_isSome {registry : List JobDescriptor} {name : String} :
    (findByName fold registry name).isSome ↔ ∃ job ∈ registry, fold job.name = fold name := by
  rw [findByName, List.find?_isSome]
  simp only [decide_eq_true_eq]

theorem add_spec (registry : JobRegistry fold) (d : JobDescriptor) :
    (fold d.name ∉ registry.all.map (fun job => fold job.name) ∧
        ∃ next, registry.add fold d = .ok next ∧ next.all = registry.all ++ [d]) ∨
      (fold d.name ∈ registry.all.map (fun job => fold job.name) ∧ ∃ e, registry.add fold d = .error e) := by
  unfold JobRegistry.add
  split
  · rename_i existing h
    obtain ⟨job, hjob, hname⟩ := findByName_isSome.1 (Option.isSome_of_eq_some h)
    exact .inr ⟨List.mem_map.2 ⟨job, hjob, hname⟩, _, rfl⟩
  · rename_i h
    refine .inl ⟨fun hmem => ?_, _, rfl, rfl⟩
    have hsome := findByName_isSome.2 (List.mem_map.1 hmem)
    rw [h] at hsome
    cases hsome

/-- The constructor's loop, from a registry it has got to. -/
theorem addAll_spec (registry : JobRegistry fold) (ds : List JobDescriptor) :
    (((registry.all ++ ds).map fun job => fold job.name).Nodup →
        ∃ next, ds.foldlM (JobRegistry.add fold) registry = .ok next ∧ next.all = registry.all ++ ds) ∧
      (¬ ((registry.all ++ ds).map fun job => fold job.name).Nodup →
        ∃ e, ds.foldlM (JobRegistry.add fold) registry = .error e) := by
  induction ds generalizing registry with
  | nil =>
    rw [List.append_nil]
    exact ⟨fun _ => ⟨registry, rfl, rfl⟩, fun h => absurd registry.distinct h⟩
  | cons d ds ih =>
    rw [List.foldlM_cons]
    rcases add_spec registry d with ⟨-, next, hadd, hall⟩ | ⟨hmem, e, hadd⟩
    · rw [hadd, List.append_cons, ← hall]
      exact ih next
    · rw [hadd]
      refine ⟨fun hnodup => ?_, fun _ => ⟨e, rfl⟩⟩
      rw [List.map_append, List.nodup_append] at hnodup
      exact absurd rfl (hnodup.2.2 _ hmem _ List.mem_cons_self)

theorem ofDescriptors_spec (ds : List JobDescriptor) :
    ((ds.map fun job => fold job.name).Nodup → ∃ registry, JobRegistry.ofDescriptors fold ds = .ok registry ∧ registry.all = ds) ∧
      (¬ (ds.map fun job => fold job.name).Nodup → ∃ e, JobRegistry.ofDescriptors fold ds = .error e) :=
  addAll_spec ⟨[], List.nodup_nil⟩ ds

end Registry

/-! ## Declarations and what is found -/

/-- The descriptor of a method found on a type. -/
def Member.job (type : ClrType) (m : Member) : Option JobDescriptor :=
  m.getCustomAttribute.map fun attr => describe attr.toDuckRunJobAttribute type.fullName m.declaration.method

/-- One descriptor for each `[DuckRunJob]` the type declares. -/
def ClrType.ownJobs (type : ClrType) : List JobDescriptor :=
  type.declared.filterMap fun m =>
    m.duckRunJob.map fun attr => describe attr.toDuckRunJobAttribute type.fullName m.method

/-- The jobs `Build` finds on a type. -/
def ClrType.foundJobs (type : ClrType) : List JobDescriptor :=
  if type.concrete then type.getMethods.filterMap (Member.job type) else []

/-- The methods that have their `[DuckRunJob]` from a base type: inherited with
the method, or by a method that overrides one. -/
def ClrType.sharedJobs : ClrType → List Member
  | .object => []
  | .extends_ info base =>
    let without : List Member := (info.methods.filter fun m => m.duckRunJob.isNone).map (⟨·, base⟩)
    (without ++ base.inheritable (info.methods.filterMap MethodDeclaration.slot)).filter fun m => m.getCustomAttribute.isSome

def declaredJobs (assemblies : List (List ClrType)) : List JobDescriptor := assemblies.flatten.flatMap ClrType.ownJobs

/-- Own methods with and without an attribute of their own, merged. -/
theorem length_filterMap_split {α β : Type} {own found : α → Option β} (l : List α)
    (hown : ∀ a ∈ l, ∀ b, own a = some b → found a = some b) :
    (l.filterMap own).Sublist (l.filterMap found) ∧
      (l.filterMap found).length = (l.filterMap own).length + ((l.filter fun a => (own a).isNone).filterMap found).length := by
  induction l with
  | nil => exact ⟨.slnil, rfl⟩
  | cons a l ih =>
    obtain ⟨ha, hl⟩ := List.forall_mem_cons.1 hown
    obtain ⟨hsub, hlen⟩ := ih hl
    cases ho : own a with
    | some b =>
      rw [List.filterMap_cons_some (ha b ho), List.filterMap_cons_some ho, List.filter_cons_of_neg (by simp [ho])]
      exact ⟨hsub.cons_cons b, by simp only [List.length_cons, hlen]; omega⟩
    | none =>
      rw [List.filterMap_cons_none ho, List.filter_cons_of_pos (by simp [ho])]
      cases hf : found a with
      | some b =>
        rw [List.filterMap_cons_some hf, List.filterMap_cons_some hf]
        exact ⟨hsub.cons b, by simp only [List.length_cons, hlen]; omega⟩
      | none =>
        rw [List.filterMap_cons_none hf, List.filterMap_cons_none hf]
        exact ⟨hsub, hlen⟩

theorem length_filterMap_job (type : ClrType) (l : List Member) :
    (l.filterMap (Member.job type)).length = (l.filter fun m => m.getCustomAttribute.isSome).length := by
  rw [List.length_filterMap_eq_countP, List.countP_eq_length_filter]
  simp only [Member.job, Option.isSome_map]

/-- A type's own jobs are among those found on it, and the others are the shared ones. -/
theorem foundJobs_spec {type : ClrType} (hconcrete : type.ownJobs ≠ [] → type.concrete = true) :
    type.ownJobs.Sublist type.foundJobs ∧
      type.foundJobs.length = type.ownJobs.length + if type.concrete then type.sharedJobs.length else 0 := by
  unfold ClrType.foundJobs
  by_cases hc : type.concrete = true
  · rw [if_pos hc, if_pos hc]
    cases type with
    | object => exact ⟨.slnil, rfl⟩
    | extends_ info base =>
      have hown : ∀ m ∈ info.methods, ∀ job : JobDescriptor,
          (m.duckRunJob.map fun attr => describe attr.toDuckRunJobAttribute info.fullName m.method) = some job →
          Member.job (.extends_ info base) ⟨m, base⟩ = some job := by
        intro m _ job hjob
        obtain ⟨attr, hattr, rfl⟩ := Option.map_eq_some_iff.1 hjob
        simp only [Member.job, Member.getCustomAttribute, hattr, Option.map_some]
        rfl
      obtain ⟨hsub, hlen⟩ := length_filterMap_split info.methods hown
      simp only [ClrType.getMethods, ClrType.ownJobs, ClrType.declared, ClrType.fullName, ClrType.sharedJobs,
        List.filterMap_append, List.filterMap_map, Function.comp_def, List.filter_append, List.length_append]
      refine ⟨hsub.trans (List.sublist_append_left _ _), ?_⟩
      rw [hlen, ← length_filterMap_job (.extends_ info base), List.filterMap_map, length_filterMap_job (.extends_ info base)]
      simp only [Function.comp_def, Option.isNone_map]
      omega
  · have hnil : type.ownJobs = [] := by
      by_contra hne
      exact hc (hconcrete hne)
    rw [if_neg hc, if_neg hc, hnil]
    exact ⟨.slnil, rfl⟩

/-! ## What Build returns -/

section Build
variable {ε : Type} {cronos : Cronos ε} {fold : String → String}

/-- Every attribute found on the type has a cron expression that parses. -/
def ClrType.CronsParse (cronos : Cronos ε) (type : ClrType) : Prop :=
  type.concrete = true → ∀ m ∈ type.getMethods, ∀ attr ∈ m.getCustomAttribute, (cronos.parseCron attr.cron).isSome

theorem scanMethod_appends (type : ClrType) :
    Appends (scanMethod cronos type) (fun m => (Member.job type m).toList)
      (fun m => ∀ attr ∈ m.getCustomAttribute, (cronos.parseCron attr.cron).isSome) where
  ok descriptors m hok := by
    unfold scanMethod Member.job
    cases hattr : m.getCustomAttribute with
    | none => exact congrArg Except.ok (List.append_nil descriptors).symm
    | some attr =>
      obtain ⟨expr, hexpr⟩ := Option.isSome_iff_exists.1 (hok attr hattr)
      simp only [validateCron, hexpr]
      rfl
  throws descriptors m hbad := by
    unfold scanMethod
    cases hattr : m.getCustomAttribute with
    | none => exact absurd (fun attr h => nomatch (hattr ▸ h : attr ∈ none)) hbad
    | some attr =>
      cases hparse : cronos.parseCron attr.cron with
      | some expr =>
        refine absurd (fun attr' h => ?_) hbad
        rw [hattr, Option.mem_some_iff] at h
        rw [← h, hparse]
        rfl
      | none =>
        simp only [validateCron, hparse]
        exact ⟨_, rfl⟩

theorem scanType_appends : Appends (scanType cronos) ClrType.foundJobs (ClrType.CronsParse cronos) where
  ok descriptors type hok := by
    unfold scanType ClrType.foundJobs
    by_cases hc : type.concrete = true
    · rw [if_pos hc, if_pos hc, (scanMethod_appends type).loop.ok descriptors _ (hok hc), ← List.filterMap_eq_flatMap_toList]
    · rw [if_neg hc, if_neg hc, List.append_nil]
  throws descriptors type hbad := by
    unfold scanType
    by_cases hc : type.concrete = true
    · rw [if_pos hc]
      exact (scanMethod_appends type).loop.throws descriptors _ fun hok => hbad fun _ => hok
    · exact absurd (fun hconcrete => absurd hconcrete hc) hbad

/-- The jobs found on all the types, in the order of the scan. -/
def foundJobs (assemblies : List (List ClrType)) : List JobDescriptor := assemblies.flatten.flatMap ClrType.foundJobs

theorem scan_appends :
    Appends (fun descriptors assemblies => List.foldlM (scanAssembly cronos) descriptors assemblies) foundJobs
      (fun assemblies => ∀ assembly ∈ assemblies, ∀ type ∈ assembly, type.CronsParse cronos) where
  ok descriptors assemblies hok := by
    rw [foundJobs, List.flatten_eq_flatMap, List.flatMap_assoc]
    exact scanType_appends.loop.loop.ok descriptors assemblies hok
  throws := scanType_appends.loop.loop.throws

/-- A sublist for every element, and no longer in total. -/
theorem flatMap_of_sublist {α β : Type} {f g : α → List β} {l : List α} (hsub : ∀ a ∈ l, (f a).Sublist (g a)) :
    (l.flatMap f).Sublist (l.flatMap g) ∧
      ((l.flatMap g).length ≤ (l.flatMap f).length → ∀ a ∈ l, (g a).length ≤ (f a).length) := by
  induction l with
  | nil => exact ⟨.slnil, fun _ a ha => nomatch ha⟩
  | cons a l ih =>
    obtain ⟨ha, hl⟩ := List.forall_mem_cons.1 hsub
    obtain ⟨hrest, hlen⟩ := ih hl
    have hle := ha.length_le
    have hle' := hrest.length_le
    simp only [List.flatMap_cons, List.length_append]
    refine ⟨ha.append hrest, fun h => List.forall_mem_cons.2 ⟨by omega, hlen (by omega)⟩⟩

/-- `Build` discovers the jobs: it returns every declared job and every explicit
one once if their crons parse and their names differ, and throws if two names are
equal, ignoring case. -/
structure Discovers (cronos : Cronos ε) (fold : String → String) (assemblies : List (List ClrType))
    (explicitJobs : List JobDescriptor) : Prop where
  registers : (∀ job ∈ explicitJobs ++ declaredJobs assemblies, (cronos.parseCron job.cron).isSome) →
    ((explicitJobs ++ declaredJobs assemblies).map fun job => fold job.name).Nodup →
    ∃ registry, JobScanner.build cronos fold assemblies explicitJobs = .ok registry ∧
      registry.all = explicitJobs ++ declaredJobs assemblies ∧
      ∀ name, (findByName fold registry.all name).isSome ↔
        ∃ job ∈ explicitJobs ++ declaredJobs assemblies, fold job.name = fold name
  throws : ¬ ((explicitJobs ++ declaredJobs assemblies).map fun job => fold job.name).Nodup →
    ∃ e, JobScanner.build cronos fold assemblies explicitJobs = .error e

variable {assemblies : List (List ClrType)} {explicitJobs : List JobDescriptor}

theorem build_ok {registry : JobRegistry fold} (h : JobScanner.build cronos fold assemblies explicitJobs = .ok registry) :
    registry.all = explicitJobs ++ foundJobs assemblies := by
  obtain ⟨descriptors, hscan, h⟩ := except_bind_ok.1 h
  by_cases hok : ∀ assembly ∈ assemblies, ∀ type ∈ assembly, type.CronsParse cronos
  · rw [scan_appends.ok explicitJobs assemblies hok] at hscan
    cases hscan
    by_cases hnodup : ((explicitJobs ++ foundJobs assemblies).map fun job => fold job.name).Nodup
    · obtain ⟨registry', hregistry, hall⟩ := (ofDescriptors_spec _).1 hnodup
      rw [hregistry] at h
      cases h
      exact hall
    · obtain ⟨e, he⟩ := (ofDescriptors_spec _).2 hnodup
      rw [he] at h
      cases h
  · obtain ⟨e, he⟩ := scan_appends.throws explicitJobs assemblies hok
    rw [he] at hscan
    cases hscan

theorem declared_sublist_found (hconcrete : ∀ type ∈ assemblies.flatten, type.ownJobs ≠ [] → type.concrete = true) :
    (declaredJobs assemblies).Sublist (foundJobs assemblies) :=
  (flatMap_of_sublist fun type htype => (foundJobs_spec (hconcrete type htype)).1).1

/-- What is found is what is declared exactly if no concrete type shares a job of its base types. -/
theorem found_eq_declared_iff (hconcrete : ∀ type ∈ assemblies.flatten, type.ownJobs ≠ [] → type.concrete = true) :
    foundJobs assemblies = declaredJobs assemblies ↔
      ∀ type ∈ assemblies.flatten, type.concrete = true → type.sharedJobs = [] := by
  have hsub : ∀ type ∈ assemblies.flatten, type.ownJobs.Sublist type.foundJobs :=
    fun type htype => (foundJobs_spec (hconcrete type htype)).1
  constructor
  · intro heq type htype hc
    have hle := (flatMap_of_sublist hsub).2 (by rw [← foundJobs, heq]; exact Nat.le_refl _) type htype
    have hlen := (foundJobs_spec (hconcrete type htype)).2
    rw [if_pos hc] at hlen
    exact List.length_eq_zero_iff.1 (by omega)
  · intro hshared
    unfold foundJobs declaredJobs
    refine List.flatMap_congr fun type htype => ?_
    refine ((hsub type htype).eq_of_length ?_).symm
    rw [(foundJobs_spec (hconcrete type htype)).2]
    split
    · rename_i hc
      rw [hshared type htype hc]
      rfl
    · rfl

theorem cronsParse_of_found (h : ∀ job ∈ foundJobs assemblies, (cronos.parseCron job.cron).isSome) :
    ∀ assembly ∈ assemblies, ∀ type ∈ assembly, type.CronsParse cronos := by
  intro assembly hassembly type htype hc m hm attr hattr
  refine h (describe attr.toDuckRunJobAttribute type.fullName m.declaration.method) ?_
  refine List.mem_flatMap.2 ⟨type, List.mem_flatten.2 ⟨assembly, hassembly, htype⟩, ?_⟩
  unfold ClrType.foundJobs
  rw [if_pos hc]
  exact List.mem_filterMap.2 ⟨m, hm, Option.map_eq_some_iff.2 ⟨attr, hattr, rfl⟩⟩

/-- For any assemblies whose `[DuckRunJob]` methods are declared on concrete
types, and any explicit jobs: `Build` registers every job once, or throws at a
real conflict, exactly if no concrete type has a job from one of its base types,
inherited with the method or overridden without an attribute of its own (or the
crons and names leave nothing to register). -/
theorem discovers_iff (cronos : Cronos ε) (fold : String → String) (assemblies : List (List ClrType))
    (explicitJobs : List JobDescriptor)
    (hconcrete : ∀ type ∈ assemblies.flatten, type.ownJobs ≠ [] → type.concrete = true) :
    Discovers cronos fold assemblies explicitJobs ↔
      ((∀ job ∈ explicitJobs ++ declaredJobs assemblies, (cronos.parseCron job.cron).isSome) →
        ((explicitJobs ++ declaredJobs assemblies).map fun job => fold job.name).Nodup →
        ∀ type ∈ assemblies.flatten, type.concrete = true → type.sharedJobs = []) := by
  constructor
  · intro h hcrons hnames
    obtain ⟨registry, hbuild, hall, -⟩ := h.registers hcrons hnames
    rw [build_ok hbuild] at hall
    exact (found_eq_declared_iff hconcrete).1 (List.append_cancel_left hall)
  · intro hshared
    refine ⟨fun hcrons hnames => ?_, fun hnames => ?_⟩
    · have hfound := (found_eq_declared_iff hconcrete).2 (hshared hcrons hnames)
      have hparse := @cronsParse_of_found _ cronos assemblies fun job hjob =>
        hcrons job (List.mem_append_right _ (hfound ▸ hjob))
      obtain ⟨registry, hregistry, hall⟩ := (ofDescriptors_spec _).1 hnames
      refine ⟨registry, ?_, hall, fun name => hall ▸ findByName_isSome⟩
      refine except_bind_ok.2 ⟨_, scan_appends.ok explicitJobs assemblies hparse, ?_⟩
      rw [hfound]
      exact hregistry
    · cases hbuild : JobScanner.build cronos fold assemblies explicitJobs with
      | error e => exact ⟨e, rfl⟩
      | ok registry =>
        -- What was declared is among what was found, and that had distinct names.
        have hdistinct := registry.distinct
        rw [build_ok hbuild] at hdistinct
        have hsub := ((List.Sublist.refl explicitJobs).append (declared_sublist_found hconcrete)).map fun job => fold job.name
        exact absurd (hdistinct.sublist hsub) hnames

end Build

/-! ## A job class and a class derived from it -/

def syncAttribute : AppliedAttribute where
  name := "sync"
  cron := "* * * * *"
  maxConcurrency := 1
  timeoutSeconds := 0
  allowManualTrigger := true
  enabled := true
  name_given := by decide
  cron_given := by decide

/-- `class Reports { [DuckRunJob("sync", "* * * * *")] public void Run() { } }` -/
def reportsClass : ClrType :=
  .extends_ ⟨"Reports", false, false, [⟨⟨"Run", false, []⟩, false, none, some syncAttribute⟩]⟩ .object

/-- `class SpecialReports : Reports { }` -/
def specialReportsClass : ClrType := .extends_ ⟨"SpecialReports", false, false, []⟩ reportsClass

theorem discovers_reports :
    ∃ registry, JobScanner.build cronosOfPeriods id [[reportsClass]] [] = .ok registry ∧
      registry.all = declaredJobs [[reportsClass]] := by
  have hdiscovers := (discovers_iff cronosOfPeriods id [[reportsClass]] [] (by decide)).2 (fun _ _ => by decide)
  obtain ⟨registry, hbuild, hall, -⟩ := hdiscovers.registers (by decide) (by decide)
  exact ⟨registry, hbuild, hall⟩

/-- A class derived from a job class makes `Build` throw. -/
theorem derived_class_throws :
    ¬ ∀ (ε : Type) (cronos : Cronos ε) (fold : String → String) (assemblies : List (List ClrType))
      (explicitJobs : List JobDescriptor),
      (∀ type ∈ assemblies.flatten, type.ownJobs ≠ [] → type.concrete = true) →
      Discovers cronos fold assemblies explicitJobs := by
  intro hall
  obtain ⟨registry, hbuild, -⟩ := (hall Period cronosOfPeriods id [[reportsClass, specialReportsClass]] [] (by decide)).registers
    (by decide) (by decide)
  cases hbuild

end DuckRun.Runtime
