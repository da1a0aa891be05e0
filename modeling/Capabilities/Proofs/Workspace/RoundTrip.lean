import Capabilities.Proofs.Session.Queue
import Capabilities.Proofs.Workspace.Derivation
import Capabilities.Script.Parse

/-!
# From a module to the table and back

Deriving a path table cuts a module's path at its modules root, and scheduling puts what is left
behind the modules root of a consumer. Modules may lie below several roots here, and several may
declare one capability: the one that is listed last wins, and for a consumer below its root asking
for the capability leads to the very path under which it was found. So a module that was added
under that path is recognised, whatever else the table says.
-/

namespace Capabilities.Workspace

open Host Resolver Script Session Capabilities.Module

variable {config : Config} {read : String → Option String} {before after : List String}
  {path name relative root consumer : String} {work : Work} {mail : Mail}

section

variable [Parser]

/-- A module that has a modules root, can be read, and declares to provide a capability. -/
structure Supplies (config : Config) (read : String → Option String) (path name : String) :
    Prop where
  rooted : (config.modulesRoot? path).isSome = true
  declared : ∃ text names, read path = some text ∧
    (declaration .provides config.entryNames (parse text)).names? = some names ∧ name ∈ names

/-! ### The last supplier of a capability -/

theorem tableEntries_of_rootless (h : config.modulesRoot? path = none) :
    tableEntries config read path = [] := by
  unfold tableEntries
  simp [h]

/-- A module has an entry for just what it supplies. -/
theorem exists_mem_tableEntries_iff :
    (∃ relative, (name, relative) ∈ tableEntries config read path) ↔
      Supplies config read path name := by
  cases hroot : config.modulesRoot? path with
  | none =>
    rw [tableEntries_of_rootless hroot]
    constructor
    · rintro ⟨_, hmem⟩
      cases hmem
    · intro h
      have hrooted := h.rooted
      rw [hroot] at hrooted
      cases hrooted
  | some root =>
    constructor
    · rintro ⟨_, hmem⟩
      exact ⟨by rw [hroot]; rfl, ((mem_tableEntries_iff hroot).1 hmem).2⟩
    · intro h
      exact ⟨_, (mem_tableEntries_iff hroot).2 ⟨rfl, h.declared⟩⟩

theorem lookup_tableEntries (hroot : config.modulesRoot? path = some root)
    (h : Supplies config read path name) :
    (tableEntries config read path).reverse.lookup name =
      some (relativePath config root path) := by
  apply lookup_of_forall
  · exact List.mem_reverse.2 ((mem_tableEntries_iff hroot).2 ⟨rfl, h.declared⟩)
  · intro relative hmem
    exact ((mem_tableEntries_iff hroot).1 (List.mem_reverse.1 hmem)).1

/-- Where no module supplies a capability there is no entry for it. -/
theorem lookup_of_unsupplied {modules : List String}
    (h : ∀ path ∈ modules, ¬ Supplies config read path name) :
    (modules.flatMap (tableEntries config read)).reverse.lookup name = none := by
  apply List.lookup_eq_none_iff.2
  rintro ⟨other, relative⟩ hmem
  obtain ⟨path, hpath, hentry⟩ := List.mem_flatMap.1 (List.mem_reverse.1 hmem)
  refine bne_iff_ne.2 ?_
  rintro rfl
  exact h path hpath (exists_mem_tableEntries_iff.1 ⟨relative, hentry⟩)

/-- The table leads to the last module that supplies a capability. -/
theorem get?_deriveTable_last (hroot : config.modulesRoot? path = some root)
    (h : Supplies config read path name)
    (hlast : ∀ later ∈ after, ¬ Supplies config read later name) :
    (deriveTable config read (before ++ path :: after)).get? name =
      some (relativePath config root path) := by
  unfold deriveTable
  rw [CapabilityPaths.get?_ofList, List.flatMap_append, List.flatMap_cons, List.reverse_append,
    List.reverse_append, List.append_assoc, List.lookup_append, lookup_of_unsupplied hlast,
    Option.none_or, List.lookup_append, lookup_tableEntries hroot h, Option.some_or]

/-- The table has an entry for what some module supplies, and for nothing else. -/
theorem isSome_get?_deriveTable_iff {modules : List String} :
    ((deriveTable config read modules).get? name).isSome = true ↔
      ∃ path ∈ modules, Supplies config read path name := by
  unfold deriveTable
  rw [CapabilityPaths.get?_ofList]
  constructor
  · intro h
    obtain ⟨relative, hlookup⟩ := Option.isSome_iff_exists.1 h
    obtain ⟨before, after, heq, -⟩ := List.lookup_eq_some_iff.1 hlookup
    have hmem : (name, relative) ∈ (modules.flatMap (tableEntries config read)).reverse := by
      rw [heq]
      simp
    obtain ⟨path, hpath, hentry⟩ := List.mem_flatMap.1 (List.mem_reverse.1 hmem)
    exact ⟨path, hpath, exists_mem_tableEntries_iff.1 ⟨relative, hentry⟩⟩
  · rintro ⟨path, hpath, hsupplies⟩
    obtain ⟨relative, hmem⟩ := exists_mem_tableEntries_iff.2 hsupplies
    rw [Option.isSome_iff_ne_none]
    intro hnone
    have hother := List.lookup_eq_none_iff.1 hnone (name, relative)
      (List.mem_reverse.2 (List.mem_flatMap.2 ⟨path, hpath, hmem⟩))
    exact bne_iff_ne.1 hother rfl

/-! ### Asking for it -/

omit [Parser] in
theorem schedule_of_path (hresolve : (work.table.poll mail).resolve name = .found relative)
    (hpath : config.modulePath? consumer relative = some path) :
    schedule config mail name consumer work =
      let answer := work.program.addFile path none work.state.currentOrigin
      (if answer.1 then .scheduled path else .alreadyKnown path,
        { work with program := answer.2, table := work.table.poll mail }) := by
  unfold schedule
  simp only [hresolve, hpath]
  split <;> rfl

omit [Parser] in
/-- A path that is known is not queued again. -/
theorem addFile_known {program : Program} {origin : Option String} (h : program.Knows path) :
    program.addFile path none origin = (false, program) :=
  addFile_of_known origin h

omit [Parser] in
/-- A path that is not known is queued. -/
theorem addFile_unknown {program : Program} {origin : Option String} (h : ¬ program.Knows path) :
    program.addFile path none origin =
      (true, { program with queue := program.queue ++ [⟨path, none, origin⟩] }) := by
  unfold Program.Knows at h
  simp only [not_or, Bool.not_eq_true] at h
  obtain ⟨hloaded, hqueued, hfailed⟩ := h
  have hadded : (program.addFile path none origin).1 = true :=
    Program.addFile_eq_true_iff.2 ⟨hloaded, hqueued, Or.inr hfailed⟩
  exact Prod.ext hadded (Program.queue_of_added hadded)

/-- The table that is derived from the modules found below a directory has an entry for a capability
    if and only if a readable one with a modules root declares to provide it. Asked for by any
    consumer below the modules root of the last such module, the capability leads to the path under
    which that module was found: it is queued under that path, and if the session knows the path
    already nothing is queued. -/
theorem schedule_discovered (config : Config) (read : String → Option String) (disk : Disk)
    (top : String) (hslash : '/' ∉ config.moduleExtension.toList) :
    let modules := discover config disk top
    (∀ name, ((deriveTable config read modules).get? name).isSome = true ↔
      ∃ path ∈ modules, Supplies config read path name) ∧
    ∀ name before path after, modules = before ++ path :: after →
      Supplies config read path name →
      (∀ later ∈ after, ¬ Supplies config read later name) →
      ∀ consumer mail (work : Work), config.modulesRoot? consumer = config.modulesRoot? path →
        (work.table.poll mail).paths? = some (deriveTable config read modules) →
        let answer := schedule config mail name consumer work
        (work.program.Knows path →
          answer.1 = .alreadyKnown path ∧ answer.2.program = work.program) ∧
        (¬ work.program.Knows path →
          answer.1 = .scheduled path ∧ answer.2.program.queue =
            work.program.queue ++ [⟨path, none, work.state.currentOrigin⟩]) := by
  intro modules
  refine ⟨fun name => isSome_get?_deriveTable_iff, ?_⟩
  intro name before path after hmodules hsupplies hlast consumer mail work hconsumer htable
  obtain ⟨root, hroot⟩ := Option.isSome_iff_exists.1 hsupplies.rooted
  have hmem : path ∈ discover config disk top := by
    change path ∈ modules
    rw [hmodules]
    simp
  have hget : (deriveTable config read modules).get? name =
      some (relativePath config root path) := by
    rw [hmodules]
    exact get?_deriveTable_last hroot hsupplies hlast
  have hresolve : (work.table.poll mail).resolve name = .found (relativePath config root path) := by
    unfold PathTable.resolve
    simp only [htable, hget]
  have hpath : config.modulePath? consumer (relativePath config root path) = some path := by
    unfold Config.modulePath?
    rw [hconsumer, hroot, Option.map_some,
      append_relativePath hroot (suffix_of_mem_discover hmem) hslash]
  dsimp only
  rw [schedule_of_path hresolve hpath]
  constructor
  · intro hknown
    rw [addFile_known hknown]
    exact ⟨rfl, rfl⟩
  · intro hunknown
    rw [addFile_unknown hunknown]
    exact ⟨rfl, rfl⟩

end

/-- Two modules below nested modules directories that provide one capability, and a consumer beside
    the second. -/
def rivals : Disk :=
  ⟨.folder [("plugins", .folder [
    ("a.js", .file (some "main.provides = [\"net\", \"net\"];")),
    ("plugins", .folder [
      ("app.js", .file (some "main.consumes = [\"net\"];")),
      ("b.js", .file (some "main.provides = [\"net\"];"))])])],
    []⟩

theorem discover_rivals : discover .default rivals "/" =
    ["/plugins/a.js", "/plugins/plugins/app.js", "/plugins/plugins/b.js"] := by
  rw [discover_of_sorted (by decide +kernel)]
  decide +kernel

def rivalWork : Work :=
  ⟨.initial, .initial, .fixed (deriveTable .default rivals.read (discover .default rivals "/"))⟩

theorem supplies_rival : Supplies .default rivals.read "/plugins/plugins/b.js" "net" := by
  have hnames : (declaration .provides Config.default.entryNames
      (parse "main.provides = [\"net\"];")).names? = some ["net"] := by decide +kernel
  exact ⟨by decide +kernel, "main.provides = [\"net\"];", ["net"], by decide +kernel, hnames,
    List.mem_singleton.2 rfl⟩

theorem schedule_rivals :
    (schedule .default [] "net" "/plugins/plugins/app.js" rivalWork).1 =
      .scheduled "/plugins/plugins/b.js" := by
  have hdiscovered := schedule_discovered .default rivals.read rivals "/" (by decide)
  have hscheduled := hdiscovered.2 "net" ["/plugins/a.js", "/plugins/plugins/app.js"]
    "/plugins/plugins/b.js" [] discover_rivals supplies_rival (fun _ h => by cases h)
    "/plugins/plugins/app.js" [] rivalWork (by decide +kernel) rfl
  have hunknown : ¬ rivalWork.program.Knows "/plugins/plugins/b.js" := by decide +kernel
  exact (hscheduled.2 hunknown).1

end Capabilities.Workspace
