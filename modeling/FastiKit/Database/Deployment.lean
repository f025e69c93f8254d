import FastiKit.Database.MigrationRuns
import FastiKit.Database.SchemaHistory

/- A deployment: containers that start together and each bring the database to the head.
   What `MigrationRuns` shows of any chain of revisions, with the revisions of
   `alembic/versions` for the chain. -/
namespace FastiKit.Versions

open Interleave Migrations
open Relational.Ddl (Database Refusal execAll)

/-- The `upgrade` of each revision. -/
def upgrades : Chain Refusal Database := versions.map (fun r => execAll r.upgrade)

section Chain
variable {start v : Versioned Database}

/-- What the chain makes of a database is something the database can go through. -/
theorem reached_of_leads (h : Leads upgrades start v) (hbound : v.revision ≤ upgrades.length) (hstart : Reached start) :
    Reached v := by
  refine h.invariant ?_ hbound hstart
  intro w upgrade data hw hup hdata
  rw [upgrades, List.getElem?_map, Option.map_eq_some_iff] at hup
  obtain ⟨r, hr, rfl⟩ := hup
  exact hw.tail (.migrated (.upgraded hr hdata))

/-- A database that was not yet at the first revision gets a table without users. -/
theorem not_passwordless_of_leads (h : Leads upgrades start v) (hzero : start.revision = 0)
    (hone : v.revision = 1) : ¬ Passwordless v.data := by
  have hfirst : Leads upgrades start v → v.revision ≤ upgrades.length →
      v.revision = 0 ∨ v.revision = 1 ∧ v.data.rows "users" = [] ∨ 1 < v.revision := by
    intro h hbound
    refine h.invariant (P := fun w => w.revision = 0 ∨ w.revision = 1 ∧ w.data.rows "users" = [] ∨ 1 < w.revision) ?_
      hbound (.inl hzero)
    intro w upgrade data hw hup hdata
    rcases hw with hw | hw | hw
    · rw [hw] at hup ⊢
      have hupgrade : upgrade = execAll createUserTable.upgrade := (Option.some.inj hup).symm
      rw [hupgrade] at hdata
      refine .inr (.inl ⟨rfl, ?_⟩)
      show data.rows "users" = []
      rw [(Relational.Ddl.execAll_ok hdata).2]
      rfl
    · exact .inr (.inr (by show 1 < w.revision + 1; omega))
    · exact .inr (.inr (by show 1 < w.revision + 1; omega))
  rintro ⟨user, huser, -⟩
  rcases hfirst h (by rw [hone]; decide) with hno | ⟨-, hempty⟩ | hno
  · omega
  · rw [hempty] at huser
    cases huser
  · omega

end Chain

/-- However many containers migrate at once, and whenever they die or lose their
connections: the database is at every moment what the upgrades in order, each once, have
made of the one they started with, and its schema is that of its revision; once a container has succeeded it is the models' schema;
and a container fails only with its connection, or because the database was at the first
revision and had a user without a password. -/
theorem deployment (start : Versioned Database) (hstart : Reached start) (s : Processes Refusal Database)
    (h : (processes upgrades).Steps Fair (System.start (initial start)) s) :
    Leads upgrades start s.state.db ∧ s.state.db.data.schema = schemaAt s.state.db.revision ∧
    (∀ i c, s.Finished i c (.ok ()) → Agrees s.state.db.data.schema metadata) ∧
    ∀ i c e, s.Finished i c (.error e) →
      (e = .connectionLost ∧ c ∈ s.state.dropped) ∨ start.revision = 1 ∧ Passwordless start.data := by
  have hbound : start.revision ≤ upgrades.length := by
    rw [upgrades, List.length_map]
    exact hstart.inStep.bound
  obtain ⟨hok, hleft⟩ := reached hbound h
  have hbase : Base upgrades start s.state := hok.2.1.2
  have hreached := reached_of_leads hbase.leads hbase.bound hstart
  have hschema := hreached.inStep.schema
  refine ⟨hbase.leads, hschema, ?_, ?_⟩
  · intro i c hf
    have hhead : s.state.db.revision = versions.length := by
      have hout : s.state.db.revision = upgrades.length := (hleft i c _ hf).2.2
      rw [hout, upgrades, List.length_map]
    rw [hschema, hhead]
    exact agrees_head
  · intro i c e hf
    have hexcused : Excused upgrades start c s.state e := (hleft i c _ hf).2.2
    cases e with
    | connectionLost => exact .inl ⟨rfl, hexcused⟩
    | raised refusal =>
      right
      obtain ⟨v, upgrade, hleads, hup, hraise⟩ := hexcused
      have hlt := (List.getElem?_eq_some_iff.mp hup).1
      have hv := reached_of_leads hleads (Nat.le_of_lt hlt) hstart
      rw [upgrades, List.getElem?_map, Option.map_eq_some_iff] at hup
      obtain ⟨r, hr, rfl⟩ := hup
      -- only the second revision can be refused
      have hrefused : v.revision = 1 ∧ Passwordless v.data := by
        by_contra hno
        obtain ⟨data, hdata⟩ := (upgrade_ok_iff hr hv.inStep.schema).mpr hno
        rw [hraise] at hdata
        cases hdata
      obtain ⟨hone, hpasswordless⟩ := hrefused
      have hle : start.revision ≤ 1 := hone ▸ hleads.1
      rcases Nat.le_one_iff_eq_zero_or_eq_one.mp hle with hzero | hstart_one
      · exact absurd hpasswordless (not_passwordless_of_leads hleads hzero hone)
      · refine ⟨hstart_one, ?_⟩
        obtain ⟨-, hfold⟩ := hleads
        rw [hone, hstart_one, Nat.sub_self, List.take_zero] at hfold
        have hsame : start.data = v.data := Except.ok.inj hfold
        rwa [hsame]
    | failedTransaction => exact hexcused.elim
    | alreadyBegun => exact hexcused.elim
    | unknownRevision => exact hexcused.elim
    | staleRevision => exact hexcused.elim

/-- One container and a new database. -/
theorem deployment_sample : ∃ s, (processes upgrades).Steps Fair (System.start (initial ⟨0, .empty⟩)) s ∧
    s.Finished 0 0 (.ok ()) ∧ Agrees s.state.db.data.schema metadata := by
  have hrun : ((processes upgrades).runIf fair (System.start (initial ⟨0, .empty⟩))
      (.spawn 0 :: List.replicate 31 (.run 0))).any (fun s =>
        s.threads[0]?.any (fun th => decide (th.req = 0) && th.code.outcome.any Except.isOk)) = true := by
    decide +kernel
  obtain ⟨s, hs, hfacts⟩ := (Option.any_eq_true _ _).mp hrun
  obtain ⟨th, hth, hfacts⟩ := (Option.any_eq_true _ _).mp hfacts
  rw [Bool.and_eq_true, Option.any_eq_true] at hfacts
  obtain ⟨hreq, out, hout, hok⟩ := hfacts
  have hfinished : s.Finished 0 0 (.ok ()) := by
    refine ⟨th, hth, of_decide_eq_true hreq, ?_⟩
    cases out with
    | ok _ => exact hout
    | error e => cases hok
  have hsteps := steps_fair hs
  exact ⟨s, hsteps, hfinished, (deployment _ Relation.ReflTransGen.refl s hsteps).2.2.1 0 0 hfinished⟩

end FastiKit.Versions
