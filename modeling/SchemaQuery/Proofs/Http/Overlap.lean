import Mathlib.Logic.Relation
import SchemaQuery.Proofs.Http.Reloading

/-!
# Reloads that overlap

A reload reads the schema file and publishes what it read some time later.  In between the
file may change, and other reloads may read it and publish.  Nothing relates the order of the
publications to that of the readings: in force is what the last reload to publish has read,
however old it is.  So the registry in force can go back to an earlier version of the file,
but only through a reload that was overtaken, which read before another one did and published
after it.

## Main definitions

* `Reading` - what a reload has read.
* `Overlap`, `Overlap.Step` - a server with reloads under way, and what can happen to it.
* `Overlap.BuiltFrom` - a registry is built from a version of the schema file.
* `Overlap.NeverBack` - the registry in force is not older than one that was published before.

## Main statements

* `Overlap.Coherent.step`, `Overlap.coherent_of_reaches` - versions are read in order, and the
  last publication is in force.
* `Overlap.goes_back_only_if_overtaken` - **only a reload that was overtaken goes back.**
* `Overlap.neverBack_after` - the events of a server are steps, with no reload overtaken.
-/

namespace SchemaQuery.Http

open Relation (ReflTransGen)

/-- What a reload has read: a version of the schema file, and the registry that it holds. -/
structure Reading where
  version : Nat
  registry : Registry

/-- A server whose reloads may overlap, with what happened so far. -/
structure Overlap where
  server : Server
  /-- The versions of the schema file, from that at the start to the present one. -/
  files : List (Option String)
  /-- What reloads have read with success, in the order in which they read. -/
  readings : List Reading
  /-- The reloads that have published, by their positions among the readings, in the order in
  which they published. -/
  published : List Nat

namespace Overlap

/-- A server without reloads under way. -/
def start (s : Server) : Overlap := ⟨s, [s.schemaFile], [], []⟩

/-- The number of the present version of the schema file. -/
def version (o : Overlap) : Nat := o.files.length - 1

/-- The schema file is written, or removed. -/
def write (o : Overlap) (file : Option String) : Overlap :=
  { o with server := o.server.withFile file, files := o.files ++ [file] }

/-- A reload has read a registry. -/
def read (o : Overlap) (registry : Registry) : Overlap :=
  { o with readings := o.readings ++ [⟨o.version, registry⟩] }

/-- A reload publishes what it read. -/
def publish (o : Overlap) (reload : Nat) (registry : Registry) : Overlap :=
  { o with server := o.server.publish registry, published := o.published ++ [reload] }

/-- What can happen to a server with reloads under way.  Any reload that has read a registry
can be the next to publish, if it did not do so before. -/
inductive Step : Overlap → Overlap → Prop where
  | write (o : Overlap) (file : Option String) : Step o (o.write file)
  | read {o : Overlap} {registry : Registry} (h : o.server.load = .ok registry) :
    Step o (o.read registry)
  /-- A reload of a file that cannot be used ends with its reading. -/
  | refuse {o : Overlap} {e : SchemaError} (h : o.server.load = .error e) : Step o o
  | publish {o : Overlap} {reload : Nat} {reading : Reading}
    (h : o.readings[reload]? = some reading) (hnew : reload ∉ o.published) :
    Step o (o.publish reload reading.registry)
  /-- A request for something else than a reload is answered. -/
  | request {o : Overlap} {r : Request} (h : ¬ r.IsReload) :
    Step o { o with server := (o.server.handleRequest r).2 }

/-- What follows on steps. -/
abbrev Reaches : Overlap → Overlap → Prop := ReflTransGen Step

/-- A registry is built from a version of the schema file. -/
def BuiltFrom (o : Overlap) (registry : Registry) (version : Nat) : Prop :=
  ∃ text, o.files[version]? = some (some text) ∧ Registry.ofText text = .ok registry

/-- The registry in force is built from a version no older than any that a reload which has
published had read. -/
def NeverBack (o : Overlap) : Prop :=
  ∀ reload ∈ o.published, ∀ reading, o.readings[reload]? = some reading →
    ∃ version, reading.version ≤ version ∧ o.BuiltFrom o.server.registry version

/-! ## What the steps keep -/

/-- The file is at its last version, versions are read in order, and the last publication is in
force. -/
structure Coherent (o : Overlap) : Prop where
  file : o.files.getLast? = some o.server.schemaFile
  built : ∀ reading ∈ o.readings, o.BuiltFrom reading.registry reading.version
  ordered : o.readings.Pairwise fun earlier later => earlier.version ≤ later.version
  known : ∀ reload ∈ o.published, reload < o.readings.length
  inForce : ∀ reload ∈ o.published.getLast?, ∃ reading, o.readings[reload]? = some reading ∧
    o.server.registry = reading.registry

variable {o o' : Overlap} {s : Server}

theorem BuiltFrom.lt {registry : Registry} {version : Nat} (h : o.BuiltFrom registry version) :
    version < o.files.length := by
  obtain ⟨text, hfile, -⟩ := h
  exact (List.getElem?_eq_some_iff.mp hfile).1

/-- No later version changes what a registry is built from. -/
theorem BuiltFrom.write {registry : Registry} {version : Nat} (h : o.BuiltFrom registry version)
    (file : Option String) : (o.write file).BuiltFrom registry version := by
  obtain ⟨text, hfile, hread⟩ := h
  refine ⟨text, ?_, hread⟩
  show (o.files ++ [file])[version]? = some (some text)
  rw [List.getElem?_append_left (BuiltFrom.lt ⟨text, hfile, hread⟩), hfile]

theorem coherent_start (s : Server) : (start s).Coherent where
  file := rfl
  built := nofun
  ordered := .nil
  known := nofun
  inForce := nofun

/-- What is loaded is built from the present version. -/
theorem Coherent.builtFrom_version (h : o.Coherent) {registry : Registry}
    (hload : o.server.load = .ok registry) : o.BuiltFrom registry o.version := by
  have hpresent : o.files[o.version]? = some o.server.schemaFile := by
    rw [← h.file, List.getLast?_eq_getElem?]
    rfl
  rw [Server.load] at hload
  split at hload
  · cases hload
  · rename_i text htext
    exact ⟨text, hpresent.trans (congrArg some htext), hload⟩

/-- **One step keeps the versions in order and the last publication in force.** -/
theorem Coherent.step (h : o.Coherent) (hstep : Step o o') : o'.Coherent := by
  cases hstep with
  | write file =>
      exact ⟨List.getLast?_concat, fun reading hreading => (h.built reading hreading).write file,
        h.ordered, h.known, h.inForce⟩
  | read hload =>
      have hbuilt := h.builtFrom_version hload
      refine ⟨h.file, ?_, ?_, ?_, ?_⟩
      · intro reading hreading
        rcases List.mem_append.mp hreading with hold | hnew
        · exact h.built reading hold
        · obtain rfl := List.mem_singleton.mp hnew
          exact hbuilt
      · refine List.pairwise_append.mpr ⟨h.ordered, List.pairwise_singleton _ _, ?_⟩
        intro earlier hearlier later hlater
        obtain rfl := List.mem_singleton.mp hlater
        exact Nat.le_sub_one_of_lt (h.built earlier hearlier).lt
      · intro reload hreload
        have hlt := h.known reload hreload
        show reload < (o.readings ++ _).length
        rw [List.length_append]
        omega
      · intro reload hreload
        obtain ⟨reading, hreading, hregistry⟩ := h.inForce reload hreload
        refine ⟨reading, ?_, hregistry⟩
        exact (List.getElem?_append_left (h.known reload (List.mem_of_getLast? hreload))).trans
          hreading
  | refuse => exact h
  | publish hreading hnew =>
      refine ⟨h.file, h.built, h.ordered, ?_, ?_⟩
      · intro reload hreload
        rcases List.mem_append.mp hreload with hold | hlast
        · exact h.known reload hold
        · obtain rfl := List.mem_singleton.mp hlast
          exact (List.getElem?_eq_some_iff.mp hreading).1
      · intro reload hreload
        obtain rfl := Option.some.inj (List.getLast?_concat.symm.trans hreload)
        exact ⟨_, hreading, rfl⟩
  | request hother =>
      obtain ⟨metrics, hserver⟩ := o.server.exists_metrics hother
      rw [hserver]
      exact ⟨h.file, h.built, h.ordered, h.known, h.inForce⟩

/-- **Versions are read in order, and the last publication is in force**, whatever happened. -/
theorem coherent_of_reaches (h : Reaches (start s) o) : o.Coherent := by
  induction h with
  | refl => exact coherent_start s
  | tail _ hstep ih => exact ih.step hstep

/-- A reload that read a version before another one did has read no newer version. -/
theorem Coherent.version_le (h : o.Coherent) {i j : Nat} {earlier later : Reading}
    (hearlier : o.readings[i]? = some earlier) (hlater : o.readings[j]? = some later)
    (hle : i ≤ j) : earlier.version ≤ later.version := by
  rcases Nat.lt_or_eq_of_le hle with hlt | rfl
  · obtain ⟨hi, rfl⟩ := List.getElem?_eq_some_iff.mp hearlier
    obtain ⟨hj, rfl⟩ := List.getElem?_eq_some_iff.mp hlater
    exact List.pairwise_iff_getElem.mp h.ordered i j hi hj hlt
  · obtain rfl := Option.some.inj (hearlier.symm.trans hlater)
    exact Nat.le_refl _

/-! ## Overtaking -/

/-- The last reload to publish, with what it read: the registry in force is the one that it
built from the version that it read. -/
structure LastToPublish (o : Overlap) (last : Nat) (reading : Reading) : Prop where
  published : o.published.getLast? = some last
  read : o.readings[last]? = some reading
  inForce : o.server.registry = reading.registry
  built : o.BuiltFrom o.server.registry reading.version

theorem Coherent.exists_lastToPublish (h : o.Coherent) (hpublished : o.published ≠ []) :
    ∃ last reading, o.LastToPublish last reading := by
  have hlast := List.getLast?_eq_some_getLast hpublished
  obtain ⟨reading, hread, hregistry⟩ := h.inForce _ hlast
  exact ⟨_, reading, hlast, hread, hregistry,
    hregistry ▸ h.built reading (List.mem_of_getElem? hread)⟩

/-- In an ordered list nothing is greater than the last item. -/
theorem le_of_getLast? {items : List Nat} {item last : Nat} (h : items.Pairwise (· < ·))
    (hlast : items.getLast? = some last) (hitem : item ∈ items) : item ≤ last := by
  obtain ⟨front, rfl⟩ := List.getLast?_eq_some_iff.mp hlast
  rcases List.mem_append.mp hitem with hfront | hsame
  · exact Nat.le_of_lt ((List.pairwise_append.mp h).2.2 item hfront last List.mem_cons_self)
  · exact Nat.le_of_eq (List.mem_singleton.mp hsame)

/-- **Reloads that publish in the order in which they read never go back.** -/
theorem Coherent.neverBack (h : o.Coherent) (hinOrder : o.published.Pairwise (· < ·)) :
    o.NeverBack := by
  intro reload hreload reading hreading
  obtain ⟨last, lastReading, hlast⟩ := h.exists_lastToPublish (List.ne_nil_of_mem hreload)
  have hle := le_of_getLast? hinOrder hlast.published hreload
  exact ⟨_, h.version_le hreading hlast.read hle, hlast.built⟩

/-- **Only a reload that was overtaken goes back.**  Once a reload has published, the registry
in force is the one that the last reload to publish has built from the version that it read.
This version is older than that of the first reload only if the last one had read before it;
so reloads that publish in the order in which they read never go back. -/
theorem goes_back_only_if_overtaken (h : Reaches (start s) o) :
    (∀ reload ∈ o.published, ∃ reading last lastReading,
      o.readings[reload]? = some reading ∧ o.LastToPublish last lastReading ∧
        (lastReading.version < reading.version → last < reload)) ∧
    (o.published.Pairwise (· < ·) → o.NeverBack) := by
  have hcoherent := coherent_of_reaches h
  refine ⟨fun reload hreload => ?_, hcoherent.neverBack⟩
  have hreading := List.getElem?_eq_getElem (hcoherent.known reload hreload)
  obtain ⟨last, lastReading, hlast⟩ :=
    hcoherent.exists_lastToPublish (List.ne_nil_of_mem hreload)
  refine ⟨_, last, lastReading, hreading, hlast, fun holder => ?_⟩
  by_contra hnot
  have hle := hcoherent.version_le hreading hlast.read (Nat.le_of_not_lt hnot)
  omega

/-- The first of two reloads has read a text and the second another one, which was written in
between. -/
def twoReadings (s : Server) (first second : String) (old new : Registry) : Overlap :=
  ((((start s).write (some first)).read old).write (some second)).read new

/-- Each of the two publishes; the one that read the newer text is the first to do so, or the
second. -/
theorem reaches_published (s : Server) {first second : String} {old new : Registry}
    (hfirst : Registry.ofText first = .ok old) (hsecond : Registry.ofText second = .ok new) :
    Reaches (start s) (((twoReadings s first second old new).publish 1 new).publish 0 old) ∧
      Reaches (start s) (((twoReadings s first second old new).publish 0 old).publish 1 new) := by
  have hread : Reaches (start s) (twoReadings s first second old new) := by
    have hold : ((start s).write (some first)).server.load = .ok old := hfirst
    have hnew : ((((start s).write (some first)).read old).write (some second)).server.load
        = .ok new := hsecond
    exact (ReflTransGen.single (.write _ _)).tail (.read hold) |>.tail (.write _ _)
      |>.tail (.read hnew)
  have hpublish {o : Overlap} (reload version : Nat) {registry : Registry}
      (h : o.readings[reload]? = some ⟨version, registry⟩) (hnew : reload ∉ o.published) :
      Reaches o (o.publish reload registry) := .single (.publish h hnew)
  have hovertaken : (0 : Nat) ∉ [1] := by decide
  have hinOrder : (1 : Nat) ∉ [0] := by decide
  exact ⟨(hread.trans (hpublish 1 2 rfl nofun)).trans (hpublish 0 1 rfl hovertaken),
    (hread.trans (hpublish 0 1 rfl nofun)).trans (hpublish 1 2 rfl hinOrder)⟩

/-- The reload of the older text publishes last: the registry in force is of version one,
though that of version two was published before.  In the other order it is of version two. -/
theorem goes_back_only_if_overtaken_orders : ∃ first second,
    let read := twoReadings (.start Orders.registry "models.json" "noon") first second
      Orders.registry Orders.grownRegistry
    Reaches (start (.start Orders.registry "models.json" "noon"))
        ((read.publish 1 Orders.grownRegistry).publish 0 Orders.registry) ∧
      (∃ lastReading, ((read.publish 1 Orders.grownRegistry).publish 0
          Orders.registry).LastToPublish 0 lastReading ∧ lastReading.version = 1) ∧
      Reaches (start (.start Orders.registry "models.json" "noon"))
        ((read.publish 0 Orders.registry).publish 1 Orders.grownRegistry) ∧
      ((read.publish 0 Orders.registry).publish 1 Orders.grownRegistry).NeverBack := by
  obtain ⟨first, hfirst⟩ := Registry.exists_ofText Orders.registry
  obtain ⟨second, hsecond⟩ := Registry.exists_ofText Orders.grownRegistry
  obtain ⟨hovertaken, hinOrder⟩ := reaches_published
    (.start Orders.registry "models.json" "noon") hfirst hsecond
  refine ⟨first, second, hovertaken, ?_, hinOrder, ?_⟩
  · obtain ⟨reading, last, lastReading, -, hlast, -⟩ :=
      (goes_back_only_if_overtaken hovertaken).1 1 List.mem_cons_self
    obtain rfl : 0 = last := Option.some.inj hlast.published
    obtain rfl : ⟨1, Orders.registry⟩ = lastReading := Option.some.inj hlast.read
    exact ⟨_, hlast, rfl⟩
  · have hordered : [0, 1].Pairwise (· < ·) := by decide
    exact (goes_back_only_if_overtaken hinOrder).2 hordered

/-- **Reloads go back if they overtake one another.** -/
theorem not_forall_neverBack :
    ¬ ∀ s o, Reaches (start s) o → o.NeverBack := by
  intro hnever
  obtain ⟨first, hfirst⟩ := Registry.exists_ofText Orders.registry
  obtain ⟨second, hsecond⟩ := Registry.exists_ofText Orders.grownRegistry
  have hovertaken := (reaches_published (.start Orders.registry "models.json" "noon")
    hfirst hsecond).1
  obtain ⟨version, hle, text, hfile, htext⟩ :=
    hnever _ _ hovertaken 1 List.mem_cons_self ⟨2, Orders.grownRegistry⟩ rfl
  -- from the second version on there is only the text of the grown registry
  have hfile' : [none, some first, some second][version]? = some (some text) := hfile
  obtain rfl : version = 2 := by
    have hlt := (List.getElem?_eq_some_iff.mp hfile').1
    exact Nat.le_antisymm (Nat.le_of_lt_succ hlt) hle
  obtain rfl : second = text := Option.some.inj (Option.some.inj hfile')
  have hsame : Orders.registry = Orders.grownRegistry := Except.ok.inj (htext.symm.trans hsecond)
  have hsizes : Orders.registry.size ≠ Orders.grownRegistry.size := by decide
  exact hsizes (congrArg Registry.size hsame)

/-! ## Reloads in one piece -/

/-- **An event is a sequence of steps**, a reload being a reading that is published at once.
The reloads that published in the order of their readings still do. -/
theorem Coherent.exists_reaches_step (h : o.Coherent) (hinOrder : o.published.Pairwise (· < ·))
    (event : Event) :
    ∃ o', Reaches o o' ∧ o'.server = (o.server.step event).2 ∧
      o'.published.Pairwise (· < ·) := by
  cases event with
  | writeSchema text => exact ⟨_, .single (.write o (some text)), rfl, hinOrder⟩
  | removeSchema => exact ⟨_, .single (.write o none), rfl, hinOrder⟩
  | request r =>
      by_cases hreload : r.IsReload
      · have hserver : (o.server.step (.request r)).2 = o.server.reload.2 :=
          congrArg Prod.snd (o.server.handleRequest_reload hreload)
        rw [hserver, Server.reload]
        cases hload : o.server.load with
        | error e => exact ⟨o, .refl, rfl, hinOrder⟩
        | ok registry =>
            have hreading : (o.read registry).readings[o.readings.length]?
                = some ⟨o.version, registry⟩ := List.getElem?_concat_length
            have hnew : o.readings.length ∉ (o.read registry).published := fun hold =>
              absurd (h.known _ hold) (Nat.lt_irrefl _)
            refine ⟨_, .tail (.single (.read hload)) (.publish hreading hnew), rfl, ?_⟩
            refine List.pairwise_append.mpr ⟨hinOrder, List.pairwise_singleton _ _, ?_⟩
            intro earlier hearlier later hlater
            obtain rfl := List.mem_singleton.mp hlater
            exact h.known earlier hearlier
      · exact ⟨_, .single (.request hreload), rfl, hinOrder⟩

/-- **The events of a server are steps, with no reload overtaken.** -/
theorem exists_reaches_after (s : Server) (events : List Event) :
    ∃ o, Reaches (start s) o ∧ o.server = s.after events ∧ o.published.Pairwise (· < ·) := by
  induction events using List.reverseRecOn with
  | nil => exact ⟨start s, .refl, rfl, .nil⟩
  | append_singleton earlier event ih =>
      obtain ⟨o, hreaches, hserver, hinOrder⟩ := ih
      obtain ⟨o', hsteps, hafter, hinOrder'⟩ :=
        (coherent_of_reaches hreaches).exists_reaches_step hinOrder event
      refine ⟨o', hreaches.trans hsteps, ?_, hinOrder'⟩
      rw [hafter, hserver, Server.after_concat]

/-- **Reloads in one piece never go back.** -/
theorem neverBack_after (s : Server) (events : List Event) :
    ∃ o, Reaches (start s) o ∧ o.server = s.after events ∧ o.NeverBack := by
  obtain ⟨o, hreaches, hserver, hinOrder⟩ := exists_reaches_after s events
  exact ⟨o, hreaches, hserver, (coherent_of_reaches hreaches).neverBack hinOrder⟩

end Overlap

end SchemaQuery.Http
