import LabInABox.Text.Fields

/-!
# The accounts of the database servers

Model of `setup_mariadb_os`, `_mariadb_configure_os`, `setup_postgresql_os` and `pg_configure_os`
(`libs/db_common.py`), as far as they set passwords, and of the accounts of the two servers. Databases
and grants do not change a password and are left out.

* A password is written as an SQL literal. MariaDB reads backslashes in it as escapes, PostgreSQL reads
  them as they stand. A statement whose literal does not end with the password is refused.
* Root of MariaDB logs in without a password until one is set, and with it from then on. The superuser
  of PostgreSQL is reached through `sudo`.
* Which names a server takes for a new user is a parameter, `Names`.
* Every SQL error is ignored, as the code does.

Results:
* `pgLiteral_sqlLit`, `mariaLiteral_sqlLit`: a literal is read back, for MariaDB if it has no backslash.
* `mariadbConfigureOs_eq`, `pgConfigureOs_eq`: the accounts that a run leaves.
* `allLogIn_iff`: the credentials that every run of a history returns log in exactly when the history
  keeps to one root password of MariaDB and to one password for each user.
-/

namespace LabInABox.Database

/-! ## Literals -/

/-- `_sql_lit(s)`. -/
def sqlLit (s : Text) : Text := '\'' :: (s.flatMap fun c => if c = '\'' then ['\'', '\''] else [c]) ++ ['\'']

/-- What MariaDB reads a backslash and a character as. -/
def readEscape : Char → Text
  | '0' => [Char.ofNat 0]
  | 'b' => [Char.ofNat 8]
  | 'n' => ['\n']
  | 'r' => ['\r']
  | 't' => ['\t']
  | 'Z' => [Char.ofNat 26]
  | '%' => ['\\', '%']
  | '_' => ['\\', '_']
  | c => [c]

/-- The value of a literal of MariaDB after its opening quote, if it ends with the text. -/
def readMaria : Text → Option Text
  | [] => none
  | '\'' :: '\'' :: rest => (readMaria rest).map ('\'' :: ·)
  | '\'' :: rest => if rest = [] then some [] else none
  | '\\' :: c :: rest => (readMaria rest).map (readEscape c ++ ·)
  | c :: rest => (readMaria rest).map (c :: ·)

/-- The value of a literal of PostgreSQL after its opening quote, if it ends with the text. -/
def readPg : Text → Option Text
  | [] => none
  | '\'' :: '\'' :: rest => (readPg rest).map ('\'' :: ·)
  | '\'' :: rest => if rest = [] then some [] else none
  | c :: rest => (readPg rest).map (c :: ·)

/-- The value of a literal in a statement for MariaDB. -/
def mariaLiteral (literal : Text) : Option Text := readMaria literal.tail

/-- The value of a literal in a statement for PostgreSQL. -/
def pgLiteral (literal : Text) : Option Text := readPg literal.tail

/-! ## The servers -/

/-- The accounts of MariaDB: the password of root, if one is set, and those of the users. -/
structure MariaDb where
  root : Option Text
  users : Text → Option Text

/-- The roles of PostgreSQL: the password of the superuser, and those of the others. -/
structure Postgres where
  superuser : Option Text
  roles : Text → Option Text

/-- The two servers of a host. -/
structure Host where
  maria : MariaDb
  pg : Postgres

/-- A host on which neither has been set up. -/
def fresh : Host := ⟨⟨none, fun _ => none⟩, ⟨none, fun _ => none⟩⟩

/-- The names that the servers take for a new user. -/
structure Names where
  maria : Text → Prop
  pg : Text → Prop
  [decidableMaria : DecidablePred maria]
  [decidablePg : DecidablePred pg]

attribute [instance] Names.decidableMaria Names.decidablePg

/-- A map with one more entry. -/
def assign (accounts : Text → Option Text) (name password : Text) : Text → Option Text := fun n =>
  if n = name then some password else accounts n

/-- A statement: what it makes of the server, unless it is refused. -/
abbrev Statement (σ : Type) := σ → Option σ

/-- `ALTER USER 'root'@'localhost' IDENTIFIED BY ..`. -/
def alterRoot (literal : Text) : Statement MariaDb := fun m =>
  (mariaLiteral literal).map fun password => { m with root := some password }

/-- `CREATE USER IF NOT EXISTS ..@'%' IDENTIFIED BY ..`: a user that is there keeps its password. -/
def createUserIfNotExists (names : Names) (user literal : Text) : Statement MariaDb := fun m =>
  (mariaLiteral literal).bind fun password =>
    if m.users user ≠ none then some m
    else if names.maria user then some { m with users := assign m.users user password }
    else none

/-- `ALTER USER postgres PASSWORD ..`. -/
def alterSuperuser (literal : Text) : Statement Postgres := fun pg =>
  (pgLiteral literal).map fun password => { pg with superuser := some password }

/-- `CREATE USER .. WITH PASSWORD ..`, which fails for a role that is there. -/
def createUser (names : Names) (user literal : Text) : Statement Postgres := fun pg =>
  (pgLiteral literal).bind fun password =>
    if pg.roles user = none ∧ names.pg user then some { pg with roles := assign pg.roles user password }
    else none

/-- The server after a statement, and whether it succeeded. -/
def execute {σ : Type} (statement : Statement σ) (server : σ) : σ × Bool :=
  match statement server with
  | some server' => (server', true)
  | none => (server, false)

/-- `mysql -u root`, with a password or without one. -/
def mysqlRoot (password : Option Text) (statement : Statement MariaDb) (m : MariaDb) : MariaDb × Bool :=
  if m.root = password then execute statement m else (m, false)

/-! ## The runs -/

/-- A configuration value that is set. -/
def given (t : Option Text) : Option Text := t.filter fun t => decide (t ≠ [])

/-- A run of `setup_mariadb_os`: its values, and the passwords that `secrets` generates. -/
structure MariaRun where
  mariadb_root_password : Option Text
  mariadb_password : Option Text
  mariadb_user : Option Text
  rootToken : Text
  userToken : Text

/-- The root password that a run returns. -/
def MariaRun.root_password (r : MariaRun) : Text := (given r.mariadb_root_password).getD r.rootToken

/-- The password that a run returns for its user. -/
def MariaRun.password (r : MariaRun) : Text := (given r.mariadb_password).getD r.userToken

/-- The user of a run. -/
def MariaRun.user (r : MariaRun) : Option Text := given r.mariadb_user

/-- `_mariadb_configure_os`. -/
def mariadbConfigureOs (names : Names) (r : MariaRun) (m : MariaDb) : MariaDb :=
  let alter := alterRoot (sqlLit r.root_password)
  let (m, altered) := mysqlRoot none alter m
  -- already has a password from an earlier run
  let m := if altered then m else (mysqlRoot (some r.root_password) alter m).1
  match r.user with
  | none => m
  | some user =>
    (mysqlRoot (some r.root_password) (createUserIfNotExists names user (sqlLit r.password)) m).1

/-- A run of `setup_postgresql_os`. -/
structure PgRun where
  postgresql_password : Option Text
  postgresql_user : Option Text

/-- The superuser's password that a run returns. -/
def PgRun.root_password (r : PgRun) : Text := (given r.postgresql_password).getD "postgres123".toList

/-- The password that a run returns for its user. -/
def PgRun.password (r : PgRun) : Text := (given r.postgresql_password).getD r.root_password

/-- The user of a run. -/
def PgRun.user (r : PgRun) : Option Text := given r.postgresql_user

/-- The user that a run creates. -/
def PgRun.created (r : PgRun) : Option Text := r.user.filter fun user => decide (user ≠ "postgres".toList)

/-- `pg_configure_os`. -/
def pgConfigureOs (names : Names) (r : PgRun) (pg : Postgres) : Postgres :=
  let pg := (execute (alterSuperuser (sqlLit r.root_password)) pg).1
  match r.created with
  | none => pg
  | some user => (execute (createUser names user (sqlLit r.password)) pg).1

/-- A run of one of the two. -/
inductive Setup
  | mariadb (r : MariaRun)
  | postgresql (r : PgRun)

/-- What a run makes of a host. -/
def step (names : Names) (h : Host) : Setup → Host
  | .mariadb r => { h with maria := mariadbConfigureOs names r h.maria }
  | .postgresql r => { h with pg := pgConfigureOs names r h.pg }

/-- The host after a history of runs. -/
def after (names : Names) (history : List Setup) : Host := history.foldl (step names) fresh

/-- The returned credentials log in: the superuser's, and those of the user. -/
def LogIn (h : Host) : Setup → Prop
  | .mariadb r => h.maria.root = some r.root_password ∧
      ∀ user ∈ r.user, h.maria.users user = some r.password
  | .postgresql r => h.pg.superuser = some r.root_password ∧
      ∀ user ∈ r.user, (if user = "postgres".toList then h.pg.superuser else h.pg.roles user) = some r.password

/-- **What every run of a history returns logs in** to the server that the run leaves. -/
def AllLogIn (names : Names) (history : List Setup) : Prop :=
  ∀ before latest rest, history = before ++ latest :: rest → LogIn (after names (before ++ [latest])) latest

/-- One root password of MariaDB, and one password for each user, all of them read back. -/
def Steady (names : Names) (history : List Setup) : Prop :=
  ∃ (root : Text) (users roles : Text → Text),
    (∀ r, .mariadb r ∈ history → r.root_password = root ∧ mariaLiteral (sqlLit root) = some root ∧
      ∀ user ∈ r.user, names.maria user ∧ r.password = users user ∧
        mariaLiteral (sqlLit r.password) = some r.password) ∧
    ∀ r, .postgresql r ∈ history → ∀ user ∈ r.created, names.pg user ∧ r.password = roles user

/-! ## Reading a literal back -/

theorem readPg_literal (s : Text) :
    readPg ((s.flatMap fun c => if c = '\'' then ['\'', '\''] else [c]) ++ ['\'']) = some s := by
  induction s with
  | nil => rfl
  | cons c s ih =>
    rw [List.flatMap_cons]
    by_cases hc : c = '\''
    · rw [if_pos hc, hc]
      exact congrArg (Option.map ('\'' :: ·)) ih
    · rw [if_neg hc, List.singleton_append, List.cons_append, readPg]
      · rw [ih]
        rfl
      · exact fun _ h => absurd h hc
      · exact fun h => absurd h hc

/-- **PostgreSQL reads a literal back.** -/
@[simp] theorem pgLiteral_sqlLit (s : Text) : pgLiteral (sqlLit s) = some s := readPg_literal s

theorem readMaria_literal {s : Text} (h : '\\' ∉ s) :
    readMaria ((s.flatMap fun c => if c = '\'' then ['\'', '\''] else [c]) ++ ['\'']) = some s := by
  induction s with
  | nil => rfl
  | cons c s ih =>
    rw [List.mem_cons, not_or] at h
    rw [List.flatMap_cons]
    by_cases hc : c = '\''
    · rw [if_pos hc, hc]
      exact congrArg (Option.map ('\'' :: ·)) (ih h.2)
    · rw [if_neg hc, List.singleton_append, List.cons_append, readMaria]
      · rw [ih h.2]
        rfl
      · exact fun _ hq => absurd hq hc
      · exact fun hq => absurd hq hc
      · exact fun _ _ hb => absurd hb.symm h.1

/-- **MariaDB reads a literal without a backslash back.** -/
theorem mariaLiteral_sqlLit {s : Text} (h : '\\' ∉ s) : mariaLiteral (sqlLit s) = some s :=
  readMaria_literal h

/-! ## A run for MariaDB -/

variable {names : Names} {r : MariaRun} {m : MariaDb} {q : PgRun} {pg : Postgres} {h : Host} {s : Setup}
  {history : List Setup}

/-- The server after the root password is set, as far as it can be. -/
def afterAlter (r : MariaRun) (m : MariaDb) : MariaDb :=
  let alter := alterRoot (sqlLit r.root_password)
  if (mysqlRoot none alter m).2 then (mysqlRoot none alter m).1
  else (mysqlRoot (some r.root_password) alter (mysqlRoot none alter m).1).1

/-- Root has its password afterwards, unless another one was set before. -/
theorem afterAlter_eq (r : MariaRun) (m : MariaDb) : afterAlter r m =
    { m with
      root := if m.root = none ∨ m.root = some r.root_password then
        (mariaLiteral (sqlLit r.root_password)).or m.root else m.root } := by
  obtain ⟨root, users⟩ := m
  unfold afterAlter mysqlRoot execute alterRoot
  cases root with
  | none => cases mariaLiteral (sqlLit r.root_password) <;> simp
  | some w =>
    by_cases hw : w = r.root_password
    · cases mariaLiteral (sqlLit r.root_password) <;> simp [hw]
    · simp [hw]

/-- What the creation of a user makes of the server: a user that is there stays as it is. -/
theorem execute_createUser (names : Names) (user literal : Text) (m : MariaDb) :
    (execute (createUserIfNotExists names user literal) m).1 =
      { m with
        users := fun u => if user = u then
          (m.users u).or (if names.maria user then mariaLiteral literal else none) else m.users u } := by
  obtain ⟨root, users⟩ := m
  unfold execute createUserIfNotExists
  cases hu : users user with
  | some w =>
    have hsame : (fun u => if user = u then
        (users u).or (if names.maria user then mariaLiteral literal else none) else users u) = users := by
      funext u
      by_cases h : user = u
      · rw [if_pos h, ← h, hu, Option.some_or]
      · rw [if_neg h]
    rw [hsame]
    cases mariaLiteral literal <;> simp [hu]
  | none =>
    have hnew : ∀ value, (fun u => if user = u then (users u).or value else users u) =
        match value with
        | some password => assign users user password
        | none => users := fun value => by
      funext u
      by_cases h : user = u
      · rw [if_pos h, ← h, hu, Option.none_or]
        cases value <;> simp [assign, hu]
      · rw [if_neg h]
        cases value <;> simp [assign, Ne.symm h]
    rw [hnew]
    by_cases hname : names.maria user
    · cases mariaLiteral literal <;> simp [hu, hname]
    · cases mariaLiteral literal <;> simp [hu, hname]

/-- The password a user that is not there is created with, if root logs in and the statement is taken. -/
def created (names : Names) (r : MariaRun) (m : MariaDb) (user : Text) : Option Text :=
  if m.root = some r.root_password ∧ names.maria user then mariaLiteral (sqlLit r.password) else none

theorem mariadbConfigureOs_eq (names : Names) (r : MariaRun) (m : MariaDb) :
    mariadbConfigureOs names r m =
      { afterAlter r m with
        users := fun u => if r.user = some u then (m.users u).or (created names r (afterAlter r m) u)
          else m.users u } := by
  have husers : (afterAlter r m).users = m.users := by rw [afterAlter_eq]
  have hrun : mariadbConfigureOs names r m = match r.user with
      | none => afterAlter r m
      | some user => (mysqlRoot (some r.root_password)
          (createUserIfNotExists names user (sqlLit r.password)) (afterAlter r m)).1 := rfl
  rw [hrun, ← husers]
  cases r.user with
  | none => simp
  | some user =>
    unfold mysqlRoot created
    by_cases hroot : (afterAlter r m).root = some r.root_password
    · simp only [hroot, if_true, true_and, execute_createUser, Option.some.injEq]
      refine congrArg (MariaDb.mk _) (funext fun u => ?_)
      by_cases h : user = u
      · rw [if_pos h, if_pos h, h]
      · rw [if_neg h, if_neg h]
    · simp [hroot]

/-! ## A run for PostgreSQL -/

theorem pgConfigureOs_eq (names : Names) (q : PgRun) (pg : Postgres) :
    pgConfigureOs names q pg =
      { superuser := some q.root_password
        roles := fun u => if q.created = some u then
          (pg.roles u).or (if names.pg u then some q.password else none) else pg.roles u } := by
  have hsuper : (execute (alterSuperuser (sqlLit q.root_password)) pg).1 =
      { pg with superuser := some q.root_password } := by
    simp [execute, alterSuperuser]
  have hrun : pgConfigureOs names q pg = match q.created with
      | none => (execute (alterSuperuser (sqlLit q.root_password)) pg).1
      | some user => (execute (createUser names user (sqlLit q.password))
          (execute (alterSuperuser (sqlLit q.root_password)) pg).1).1 := rfl
  rw [hrun, hsuper]
  cases q.created with
  | none => simp
  | some user =>
    simp only [execute, createUser, pgLiteral_sqlLit, Option.bind_some, Option.some.injEq]
    by_cases hcreate : pg.roles user = none ∧ names.pg user
    · simp only [hcreate, and_self, if_true]
      refine congrArg (Postgres.mk _) (funext fun u => ?_)
      by_cases h : user = u
      · subst h
        simp [assign, hcreate.1, hcreate.2]
      · simp [assign, h, Ne.symm h]
    · simp only [hcreate, if_false]
      refine congrArg (Postgres.mk _) (funext fun u => ?_)
      by_cases h : user = u
      · subst h
        cases hr : pg.roles user with
        | some w => simp
        | none =>
          have hname : ¬ names.pg user := fun hname => hcreate ⟨hr, hname⟩
          simp [hname]
      · simp [h]

/-! ## What a history leaves -/

/-- What the server reads its own passwords as, and which users it has. -/
structure Sound (names : Names) (h : Host) : Prop where
  root : ∀ w ∈ h.maria.root, mariaLiteral (sqlLit w) = some w
  users : ∀ u, ∀ w ∈ h.maria.users u, names.maria u ∧ mariaLiteral (sqlLit w) = some w
  roles : ∀ u, ∀ w ∈ h.pg.roles u, names.pg u

/-- The host has the credentials that a run returned. -/
def Has (h : Host) : Setup → Prop
  | .mariadb r => h.maria.root = some r.root_password ∧ ∀ u ∈ r.user, h.maria.users u = some r.password
  | .postgresql q => ∀ u ∈ q.created, h.pg.roles u = some q.password

/-- The root password stays when a run can log in afterwards. -/
theorem root_stays (names : Names) (r : MariaRun) {w : Text} (hw : m.root = some w) (hread : mariaLiteral (sqlLit w) = some w) :
    (mariadbConfigureOs names r m).root = some w := by
  rw [mariadbConfigureOs_eq, afterAlter_eq, hw]
  by_cases h : w = r.root_password
  · rw [← h, hread]
    simp
  · simp [h]

/-- So does the password of a user. -/
theorem user_stays {u w : Text} (hw : m.users u = some w) : (mariadbConfigureOs names r m).users u = some w := by
  rw [mariadbConfigureOs_eq]
  simp [hw]

theorem role_stays {u w : Text} (hw : pg.roles u = some w) : (pgConfigureOs names q pg).roles u = some w := by
  rw [pgConfigureOs_eq]
  simp [hw]

theorem has_step {s' : Setup} (hsound : Sound names h) (hhas : Has h s') : Has (step names h s) s' := by
  cases s' with
  | mariadb r' =>
    obtain ⟨hroot, husers⟩ := hhas
    cases s with
    | mariadb r => exact ⟨root_stays names r hroot (hsound.root _ hroot), fun u hu => user_stays (husers u hu)⟩
    | postgresql q => exact ⟨hroot, husers⟩
  | postgresql q' =>
    cases s with
    | mariadb r => exact hhas
    | postgresql q => exact fun u hu => role_stays (hhas u hu)

/-- A run whose credentials log in leaves a sound host that has them. -/
theorem sound_step (hsound : Sound names h) (hlog : LogIn (step names h s) s) :
    Sound names (step names h s) ∧ Has (step names h s) s := by
  cases s with
  | mariadb r =>
    obtain ⟨hroot, husers⟩ := hlog
    have hread : mariaLiteral (sqlLit r.root_password) = some r.root_password := by
      have heq := hroot
      simp only [step] at heq
      rw [mariadbConfigureOs_eq, afterAlter_eq] at heq
      cases hm : h.maria.root with
      | none =>
        rw [hm] at heq
        simpa using heq
      | some w =>
        have hstay := root_stays names r hm (hsound.root w hm)
        rw [Option.some.inj (hroot.symm.trans hstay)]
        exact hsound.root w hm
    refine ⟨⟨fun w hw => ?_, fun u w hw => ?_, hsound.roles⟩, hroot, husers⟩
    · rw [← Option.some.inj (hroot.symm.trans hw)]
      exact hread
    · cases hu : h.maria.users u with
      | some w' =>
        rw [← Option.some.inj ((user_stays hu).symm.trans hw)]
        exact hsound.users u w' hu
      | none =>
        have hnew := hw
        simp only [step, mariadbConfigureOs_eq, hu, Option.none_or, Option.mem_def] at hnew
        by_cases huser : r.user = some u
        · rw [if_pos huser, created] at hnew
          by_cases hc : (afterAlter r h.maria).root = some r.root_password ∧ names.maria u
          · rw [if_pos hc] at hnew
            have hpassword : r.password = w := Option.some.inj ((husers u huser).symm.trans hw)
            rw [hpassword] at hnew
            exact ⟨hc.2, hnew⟩
          · rw [if_neg hc] at hnew
            cases hnew
        · rw [if_neg huser] at hnew
          cases hnew
  | postgresql q =>
    refine ⟨⟨hsound.root, hsound.users, fun u w hw => ?_⟩, fun u hu => ?_⟩
    · cases hu : h.pg.roles u with
      | some w' => exact hsound.roles u w' hu
      | none =>
        simp only [step, pgConfigureOs_eq, hu, Option.none_or, Option.mem_def] at hw
        by_contra hname
        simp [hname] at hw
    · obtain ⟨huser, hne⟩ := Option.mem_filter_iff.mp hu
      have hlogin := hlog.2 u huser
      rwa [if_neg (of_decide_eq_true hne)] at hlogin

/-! ## Histories -/

theorem after_append (history : List Setup) (s : Setup) :
    after names (history ++ [s]) = step names (after names history) s := List.foldl_concat _ _ _ _

theorem allLogIn_append : AllLogIn names (history ++ [s]) ↔
    AllLogIn names history ∧ LogIn (step names (after names history) s) s := by
  constructor
  · intro h
    refine ⟨fun before latest rest heq => h before latest (rest ++ [s]) (by simp [heq]), ?_⟩
    rw [← after_append]
    exact h history s [] rfl
  · rintro ⟨hall, hlast⟩ before latest rest heq
    rcases List.eq_nil_or_concat rest with rfl | ⟨rest, s', rfl⟩
    · obtain ⟨rfl, hs⟩ := List.append_inj' heq rfl
      obtain rfl : s = latest := by simpa using hs
      rw [after_append]
      exact hlast
    · rw [List.concat_eq_append, ← List.cons_append, ← List.append_assoc] at heq
      exact hall before latest rest (List.append_inj' heq rfl).1

/-- **A history whose credentials log in** leaves a sound host that has all of them. -/
theorem sound_after : ∀ {history : List Setup}, AllLogIn names history →
    Sound names (after names history) ∧ ∀ s ∈ history, Has (after names history) s := by
  intro history
  induction history using List.reverseRecOn with
  | nil =>
    intro _
    exact ⟨⟨fun _ hw => (Option.not_mem_none _ hw).elim, fun _ _ hw => (Option.not_mem_none _ hw).elim,
      fun _ _ hw => (Option.not_mem_none _ hw).elim⟩, fun s hs => absurd hs List.not_mem_nil⟩
  | append_singleton history s ih =>
    intro h
    obtain ⟨hall, hlast⟩ := allLogIn_append.mp h
    obtain ⟨hsound, hhas⟩ := ih hall
    obtain ⟨hsound', hnew⟩ := sound_step hsound hlast
    rw [after_append]
    refine ⟨hsound', fun s' hs' => ?_⟩
    rcases List.mem_append.mp hs' with hs' | hs'
    · exact has_step hsound (hhas s' hs')
    · rw [List.mem_singleton.mp hs']
      exact hnew

/-- What a steady history has set is what its runs return. -/
structure Follows (root : Text) (users roles : Text → Text) (h : Host) : Prop where
  root : ∀ w ∈ h.maria.root, w = root
  users : ∀ u, ∀ w ∈ h.maria.users u, w = users u
  roles : ∀ u, ∀ w ∈ h.pg.roles u, w = roles u

/-- A run keeps to the passwords. -/
def Keeps (names : Names) (root : Text) (users roles : Text → Text) : Setup → Prop
  | .mariadb r => r.root_password = root ∧ mariaLiteral (sqlLit root) = some root ∧
      ∀ user ∈ r.user, names.maria user ∧ r.password = users user ∧
        mariaLiteral (sqlLit r.password) = some r.password
  | .postgresql q => ∀ user ∈ q.created, names.pg user ∧ q.password = roles user

/-- **A run that keeps to the passwords logs in.** -/
theorem follows_step {root : Text} {users roles : Text → Text} (hf : Follows root users roles h)
    (hk : Keeps names root users roles s) :
    LogIn (step names h s) s ∧ Follows root users roles (step names h s) := by
  cases s with
  | mariadb r =>
    obtain ⟨hroot, hread, huser⟩ := hk
    have hset : (afterAlter r h.maria).root = some root := by
      rw [afterAlter_eq, hroot]
      cases hm : h.maria.root with
      | none => simp [hread]
      | some w => simp [hf.root w hm, hread]
    have hnew : ∀ u, r.user = some u → (mariadbConfigureOs names r h.maria).users u = some (users u) := by
      intro u hu
      obtain ⟨hname, hpassword, hlit⟩ := huser u hu
      simp only [mariadbConfigureOs_eq, hu, if_true, created, hset, hroot, hname, and_self]
      cases hm : h.maria.users u with
      | none => rw [Option.none_or, hlit, hpassword]
      | some w => rw [Option.some_or, hf.users u w hm]
    have hroot' : (mariadbConfigureOs names r h.maria).root = some root := by
      rw [mariadbConfigureOs_eq]
      exact hset
    refine ⟨⟨?_, fun u hu => ?_⟩, fun w hw => ?_, fun u w hw => ?_, hf.roles⟩
    · rw [hroot]
      exact hroot'
    · rw [(huser u hu).2.1]
      exact hnew u hu
    · exact (Option.some.inj (hroot'.symm.trans hw)).symm
    · by_cases hu : r.user = some u
      · exact (Option.some.inj ((hnew u hu).symm.trans hw)).symm
      · simp only [step, mariadbConfigureOs_eq, if_neg hu] at hw
        exact hf.users u w hw
  | postgresql q =>
    have hnew : ∀ u, q.created = some u → (pgConfigureOs names q h.pg).roles u = some (roles u) := by
      intro u hu
      obtain ⟨hname, hpassword⟩ := hk u hu
      simp only [pgConfigureOs_eq, hu, if_true, hname]
      cases hm : h.pg.roles u with
      | none => rw [Option.none_or, hpassword]
      | some w => rw [Option.some_or, hf.roles u w hm]
    have hsuper : (pgConfigureOs names q h.pg).superuser = some q.root_password := by
      rw [pgConfigureOs_eq]
    have hsame : q.password = q.root_password := by
      unfold PgRun.password PgRun.root_password
      cases given q.postgresql_password <;> rfl
    refine ⟨⟨hsuper, fun u hu => ?_⟩, hf.root, hf.users, fun u w hw => ?_⟩
    · by_cases hpostgres : u = "postgres".toList
      · rw [if_pos hpostgres, hsame]
        exact hsuper
      · have hcreated : q.created = some u := Option.mem_filter_iff.mpr ⟨hu, decide_eq_true hpostgres⟩
        rw [if_neg hpostgres, (hk u hcreated).2]
        exact hnew u hcreated
    · by_cases hu : q.created = some u
      · exact (Option.some.inj ((hnew u hu).symm.trans hw)).symm
      · simp only [step, pgConfigureOs_eq, if_neg hu] at hw
        exact hf.roles u w hw

theorem allLogIn_of_keeps {root : Text} {users roles : Text → Text} : ∀ {history : List Setup},
    (∀ s ∈ history, Keeps names root users roles s) →
    AllLogIn names history ∧ Follows root users roles (after names history) := by
  intro history
  induction history using List.reverseRecOn with
  | nil =>
    intro _
    refine ⟨fun before latest rest h => ?_, ?_⟩
    · simp at h
    · exact ⟨fun _ hw => (Option.not_mem_none _ hw).elim, fun _ _ hw => (Option.not_mem_none _ hw).elim,
        fun _ _ hw => (Option.not_mem_none _ hw).elim⟩
  | append_singleton history s ih =>
    intro h
    obtain ⟨hall, hf⟩ := ih fun s' hs' => h s' (List.mem_append_left _ hs')
    obtain ⟨hlog, hf'⟩ := follows_step hf (h s (by simp))
    rw [after_append]
    exact ⟨allLogIn_append.mpr ⟨hall, hlog⟩, hf'⟩

/-- **Exactly when the credentials that the runs of a history return log in.** -/
theorem allLogIn_iff (names : Names) (history : List Setup) : AllLogIn names history ↔ Steady names history := by
  constructor
  · intro h
    obtain ⟨hsound, hhas⟩ := sound_after h
    refine ⟨(after names history).maria.root.getD [], fun u => ((after names history).maria.users u).getD [],
      fun u => ((after names history).pg.roles u).getD [], fun r hr => ?_, fun q hq u hu => ?_⟩
    · obtain ⟨hroot, husers⟩ := hhas _ hr
      have hreadRoot := hsound.root _ hroot
      rw [hroot, Option.getD_some]
      refine ⟨rfl, hreadRoot, fun u hu => ?_⟩
      obtain ⟨hname, hread⟩ := hsound.users u _ (husers u hu)
      exact ⟨hname, (Option.getD_eq_iff.mpr (Or.inl (husers u hu))).symm, hread⟩
    · have hrole := hhas _ hq u hu
      exact ⟨hsound.roles u _ hrole, (Option.getD_eq_iff.mpr (Or.inl hrole)).symm⟩
  · rintro ⟨root, users, roles, hmaria, hpg⟩
    have hkeeps : ∀ s ∈ history, Keeps names root users roles s := fun s hs => by
      cases s with
      | mariadb r => exact hmaria r hs
      | postgresql q => exact hpg q hs
    exact (allLogIn_of_keeps hkeeps).1

/-! ## Passwords that are left out -/

/-- A run with nothing configured, and the root password that is generated. -/
def generated (token : String) : MariaRun := ⟨none, none, none, token.toList, "Vq3cN0xJ8kLm2rTz5wYb1AdE".toList⟩

/-- Servers that take every name. -/
def anyName : Names where
  maria _ := True
  pg _ := True

/-- The root password that the second run generates is never set. -/
theorem second_root_password_unset : ¬ AllLogIn anyName
    [.mariadb (generated "h7Xo2mQeR4tYw9ZsKd1LpC0v"), .mariadb (generated "u5BnG8fJ3aHqPz6TiMxWk2Sy")] := by
  intro h
  have hroot := (h [.mariadb (generated "h7Xo2mQeR4tYw9ZsKd1LpC0v")] _ [] rfl).1
  exact absurd hroot (by decide)

end LabInABox.Database
