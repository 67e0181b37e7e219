import LabInABox.Jobs.Status
import LabInABox.Setup.Mcp
import LabInABox.Simulation
import LabInABox.Text.JsonFile

/-!
# The saved labs of the web interface

Model of `dispatch` (`webui/lib/api.py`), of `dispatch`, `list_labs`, `read_lab`, `helper` and `pub_status`
(`webui/lib/admin.py`), and of `_safe_name` and `save_lab` (`webui/lib/discovery.py`), as a machine that
answers requests.

* The state is the directory of the saved labs and what the helper works on. The helper is a process, and
  what it does is a parameter. A job it has started goes on between requests: `setup_lab` may save the lab
  with its addresses beside the lab file.
* The pages that read neither are a parameter of the site.
* `time` is what `int(os.path.getmtime(path))` gives of a file that the request writes, and `opens` what
  opening it raises.
* A `ValueError` and a `FileNotFoundError` are `refused`; anything else that is raised has `failed`.
-/

namespace LabInABox.Web.Saved

open Text Text.PyJson
open Setup (basename)

variable {R : Rounding} {H : Type}

/-- A JSON value of Python. -/
abbrev Json (R : Rounding) := JsValue (Number R)

/-- What is raised: a message that is answered as it is, or a type with its message. -/
inductive Raised
  | refused (message : Text)
  | failed (type message : Text)

/-- A number is zero. -/
def isZero : Number R → Bool
  | .int n => n = 0
  | .float x =>
    match x.val with
    | .finite d => d.digits.map Fin.val = [0]
    | _ => false

/-- `bool(value)`. -/
def truthy : Json R → Bool
  | .null => false
  | .bool b => b
  | .number n => !isZero n
  | .text t => !t.isEmpty
  | .list vs => !vs.isEmpty
  | .mapping es => !es.isEmpty

/-- `type(value).__name__`. -/
def typeName : Json R → Text
  | .null => "NoneType".toList
  | .bool _ => "bool".toList
  | .number (.int _) => "int".toList
  | .number (.float _) => "float".toList
  | .text _ => "str".toList
  | .list _ => "list".toList
  | .mapping _ => "dict".toList

/-- `os.fspath(value)`. -/
def fspath : Json R → Except Raised Text
  | .text t => .ok t
  | v => .error (.failed "TypeError".toList
      ("expected str, bytes or os.PathLike object, not ".toList ++ typeName v))

/-- `data.get(key, default)`, where `data` may be of any type. -/
def getKey (data : Json R) (key : Text) (default : Json R) : Except Raised (Json R) :=
  match data with
  | .mapping es => .ok ((es.lookup key).getD default)
  | v => .error (.failed "AttributeError".toList
      ("'".toList ++ typeName v ++ "' object has no attribute 'get'".toList))

/-! ## Names of labs -/

/-- A match of `^[A-Za-z0-9._-]+$`, whose `$` lets a last newline pass. -/
def wordRe (t : Text) : Bool :=
  let word (u : Text) := !u.isEmpty && u.all fun c => c.isAlphanum || c = '.' || c = '_' || c = '-'
  word t || t.getLast? = some '\n' && word t.dropLast

def json : Text := ".json".toList

/-- `_safe_name(filename)`, of a text. -/
def safeFile (filename : Text) : Option Text :=
  let base := basename filename
  if wordRe base then some (if json.isSuffixOf base then base else base ++ json) else none

def invalidFilename : Raised := .refused "invalid filename".toList

/-- `_safe_name(filename)`. -/
def safeNameOf (filename : Json R) : Except Raised Text :=
  if truthy filename then (fspath filename).bind fun t => (safeFile t).elim (.error invalidFilename) .ok
  else .error invalidFilename

/-! ## Requests -/

/-- A file of the directory. -/
structure LabFile where
  content : Text
  modified : Int

/-- The directory of the saved labs, and what the helper works on. -/
structure State (H : Type) where
  labs : Obj Text LabFile
  held : H

/-- A request. The body is its text, or what its decoding raises. -/
structure Request where
  action : Text
  method : Text
  params : Obj Text (List Text)
  body : Option (Except Text Text)
  user : Option Text
  https : Bool
  time : Int
  opens : Option Raised

/-- The actions of `admin.dispatch`. -/
inductive Route
  | labs
  | lab
  | save
  | credentials
  | credentialsAdd
  | credentialsEncrypt
  | credentialsDelete
  | create
  | job
  | jobs
  deriving DecidableEq

/-- The action and the method. -/
def Route.names : Route → String × String
  | .labs => ("labs", "GET")
  | .lab => ("lab", "GET")
  | .save => ("save", "POST")
  | .credentials => ("credentials", "GET")
  | .credentialsAdd => ("credentials-add", "POST")
  | .credentialsEncrypt => ("credentials-encrypt", "POST")
  | .credentialsDelete => ("credentials-delete", "POST")
  | .create => ("create", "POST")
  | .job => ("job", "GET")
  | .jobs => ("jobs", "GET")

def Route.all : List Route :=
  [.labs, .lab, .save, .credentials, .credentialsAdd, .credentialsEncrypt, .credentialsDelete, .create, .job, .jobs]

/-- The action that a request is for, by its method. -/
def Request.route (r : Request) : Option Route :=
  Route.all.find? fun x => r.action = x.names.1.toList && r.method = x.names.2.toList

/-- `(params.get(key) or [""])[0]`. -/
def Request.one (r : Request) (key : Text) : Text := ((r.params.get key).getD []).headD []

/-! ## The work of a request -/

/-- What a handler that needs a login does: the helper's work, or its own. -/
inductive Work (R : Rounding)
  | labs
  | lab (name : Text)
  | save (filename config : Json R)
  | run (args : List (Json R)) (stdin : Option (Json R))

/-- An object of one entry. -/
def single (key : Text) (v : Json R) : Json R := .mapping [(key, v)]

/-- `stdin` as `helper` sees it. -/
def given : Json R → Option (Json R)
  | .null => none
  | v => some v

/-- The arguments as a process takes them. -/
def arguments : List (Json R) → Except Raised (List Text)
  | [] => .ok []
  | v :: vs => (fspath v).bind fun t =>
    if '\x00' ∈ t then .error (.refused "embedded null byte".toList)
    else (arguments vs).map (t :: ·)

/-- `create`, once the name is checked. -/
def createWork (filename : Json R) (keep passphrase : Json R) : Except Raised (Work R) :=
  (fspath filename).bind fun t =>
    if basename t = t then
      (safeNameOf filename).map fun name =>
        .run (.text "lab-create".toList :: .text name :: if truthy keep then [.text "--keep".toList] else [])
          (some (single "passphrase".toList passphrase))
    else .error invalidFilename

/-- What `admin.dispatch` makes of a request that it finds. -/
def Route.work (r : Request) (data : Json R) : Route → Except Raised (Work R)
  | .labs => .ok .labs
  | .lab => .ok (.lab (r.one "name".toList))
  | .save => (getKey data "filename".toList (.text "lab".toList)).bind fun filename =>
      (getKey data "config".toList (.mapping [])).map (.save filename)
  | .credentials => .ok (.run [.text "credentials-list".toList] none)
  | .credentialsAdd => .ok (.run [.text "credentials-add".toList] (given data))
  | .credentialsEncrypt => (getKey data "file".toList (.text [])).bind fun file =>
      (getKey data "passphrase".toList (.text [])).map fun passphrase =>
        .run [.text "credentials-encrypt".toList, file] (some (single "passphrase".toList passphrase))
  | .credentialsDelete => (getKey data "file".toList (.text [])).map fun file =>
      .run [.text "credentials-delete".toList, file] none
  | .create => (getKey data "filename".toList (.text [])).bind fun filename =>
      (getKey data "keep".toList .null).bind fun keep =>
        (getKey data "passphrase".toList (.text [])).bind fun passphrase => createWork filename keep passphrase
  | .job => .ok (.run [.text "lab-status".toList, .text (r.one "id".toList)] none)
  | .jobs => .ok (.run [.text "lab-jobs".toList] none)

/-! ## The site -/

/-- What `json.dump(config, f, indent=2)` and a newline leave in the file. -/
def written (config : Json R) : Text := jsonDump 2 config ++ ['\n']

/-- What `list_labs` says of a lab. -/
def labEntry (lab : Text × Int) : Json R :=
  .mapping [("name".toList, .text lab.1), ("modified".toList, .number (.int lab.2))]

/-- What a run of the helper gives: `printed` is what its output is parsed to, if it is. -/
structure Ran (R : Rounding) where
  status : Int
  printed : Option (Obj Text (Json R))
  stderr : Text

/-- What the handlers are given by the host they run on. -/
structure Site (R : Rounding) (H : Type) where
  outputDir : Text
  str : Json R → Text
  repr : Text → Text
  /-- what `json.loads` says of a text -/
  syntaxError : Text → Text
  /-- `os.listdir`, of what is there -/
  listdir : List Text → List Text
  /-- opening a file that is not there -/
  noFile : Text → Raised
  process : State H → List Text → Option (Json R) → State H × Ran R
  loginConfigured : Bool
  page : Text → Text → Except Raised (Json R)
  checked : Text → Json R → Except Raised (Json R)

namespace Site

variable (site : Site R H)

/-- `json.loads(t)`. -/
def loads (t : Text) : Except Raised (Json R) :=
  (jsonLoad t).elim (.error (.refused (site.syntaxError t))) .ok

/-- `json.loads(body.decode("utf-8") or "{}") if body else {}`. -/
def data (r : Request) : Except Raised (Json R) :=
  match r.body with
  | none => .ok (.mapping [])
  | some (.error message) => .error (.refused message)
  | some (.ok t) => site.loads t

/-- `os.path.join(output_dir(), name)`. -/
def path (name : Text) : Text :=
  site.outputDir ++ (if site.outputDir.getLast? = some '/' then name else '/' :: name)

/-- The directory and the path, after `save_lab(filename, config)`. -/
def saveLab (labs : Obj Text LabFile) (r : Request) (filename config : Json R) :
    Except Raised (Obj Text LabFile × Text) :=
  (safeNameOf filename).bind fun name =>
    match r.opens with
    | some e => .error e
    | none => .ok (labs.set name ⟨written config, r.time⟩, site.path name)

/-- `read_lab(name)`. -/
def readLab (labs : Obj Text LabFile) (name : Text) : Except Raised (Json R) :=
  (safeNameOf (.text name : Json R)).bind fun file =>
    match labs.get file with
    | none => .error (site.noFile file)
    | some f => site.loads f.content

/-- `list_labs()`. -/
def listLabs (labs : Obj Text LabFile) : List (Text × Int) :=
  let named := (site.listdir labs.keys).filter fun f => json.isSuffixOf f
  (named.filterMap fun f => (labs.get f).map fun file => (f, file.modified)).mergeSort
    fun lab lab' => decide (lab'.2 ≤ lab.2)

/-! ## The helper -/

/-- What `helper` makes of a run. -/
def reply (ran : Ran R) : Except Raised (Json R) :=
  let out := ran.printed.getD Obj.empty
  if ran.status ≠ 0 ∨ "error".toList ∈ out.keys then
    let stderr := strip ran.stderr
    match (out.get "error".toList).filter truthy with
    | some message => .error (.refused (site.str message))
    | none =>
      if stderr.isEmpty then
        .error (.refused ("lab-builder-helper failed (exit ".toList ++ strInt ran.status ++ [')']))
      else .error (.refused stderr)
  else .ok (.mapping out.entries)

/-- `helper(args, stdin)`. -/
def helper (s : State H) (args : List (Json R)) (stdin : Option (Json R)) :
    State H × Except Raised (Json R) :=
  match arguments args with
  | .error e => (s, .error e)
  | .ok args => ((site.process s args stdin).1, site.reply (site.process s args stdin).2)

/-! ## The handlers -/

def unknown (r : Request) : Raised :=
  .refused ("unknown action ".toList ++ site.repr r.action ++ " (".toList ++ r.method ++ [')'])

/-- The work that a request asks for. -/
def work (r : Request) (data : Json R) : Except Raised (Work R) :=
  match r.route with
  | some route => route.work r data
  | none => .error (site.unknown r)

/-- The work done. -/
def perform (s : State H) (r : Request) : Work R → State H × Except Raised (Json R)
  | .labs => (s, .ok (single "labs".toList (.list ((site.listLabs s.labs).map labEntry))))
  | .lab name => (s, (site.readLab s.labs name).map fun v =>
      .mapping [("name".toList, .text name), ("lab".toList, v)])
  | .save filename config =>
    match site.saveLab s.labs r filename config with
    | .error e => (s, .error e)
    | .ok (labs, path) => (⟨labs, s.held⟩,
        .ok (.mapping [("saved".toList, .text (basename path)), ("path".toList, .text path)]))
  | .run args stdin => site.helper s args stdin

/-- `admin.dispatch(action, method, params, data)`. -/
def handle (s : State H) (r : Request) (data : Json R) : State H × Except Raised (Json R) :=
  match site.work r data with
  | .error e => (s, .error e)
  | .ok w => site.perform s r w

end Site

/-! ## Answers -/

/-- A status and what is sent with it. -/
abbrev Answer (R : Rounding) := Nat × Json R

def errorAnswer (status : Nat) (message : Text) : Answer R := (status, single "error".toList (.text message))

/-- What becomes of a handler's outcome. -/
def answer : Except Raised (Json R) → Answer R
  | .ok v => (200, v)
  | .error (.refused message) => errorAnswer 400 message
  | .error (.failed type message) => errorAnswer 500 (type ++ ": ".toList ++ message)

/-- `ACTIONS`. -/
def actions : List Text := Route.all.map fun x => x.names.1.toList

/-- The pages that anyone may read. -/
def pages : List Text :=
  ["components", "schema", "base", "status", "credential-types", "examples", "example"].map String.toList

/-- The request is served: it came over HTTPS, from someone who is logged in. -/
def Request.authorised (r : Request) : Bool :=
  decide (r.action ∈ actions) && r.https && r.user.any fun u => !u.isEmpty

/-- The request asks for the status of a job by the job's own token. -/
def Request.byToken (r : Request) : Bool :=
  r.action = "pub-status".toList && r.method = "GET".toList && r.https

namespace Site

variable (site : Site R H)

/-- `pub_status(job, token)`. -/
def pubStatus (s : State H) (r : Request) : State H × Except Raised (Json R) :=
  site.helper s [.text "pub-status".toList, .text (r.one "job".toList)]
    (some (single "token".toList (.text (r.one "token".toList))))

/-- The pages that need no login. -/
def openPage (r : Request) : Answer R :=
  if r.action = "auth".toList ∧ r.method = "GET".toList then
    (200, .mapping [("login_configured".toList, .bool site.loginConfigured),
      ("user".toList, .text (r.user.getD []))])
  else if r.action = "pub-status".toList ∧ r.method = "GET".toList then
    errorAnswer 403 "You must connect via HTTPS to view this page".toList
  else if r.action ∈ pages ∧ r.method = "GET".toList then answer (site.page r.action (r.one "name".toList))
  else if r.method = "POST".toList then
    answer ((site.data r).bind fun data =>
      if r.action = "validate".toList ∨ r.action = "addresses".toList then
        (getKey data "config".toList (.mapping [])).bind (site.checked r.action)
      else .error (site.unknown r))
  else answer (.error (site.unknown r))

/-- `api.dispatch(action, method, params, body, user, https)`. -/
def dispatch (s : State H) (r : Request) : State H × Answer R :=
  if r.action ∈ actions then
    if r.https then
      if r.user.any fun u => !u.isEmpty then
        match site.data r with
        | .error e => (s, answer (.error e))
        | .ok data => ((site.handle s r data).1, answer (site.handle s r data).2)
      else (s, errorAnswer 401 ("log in to use ".toList ++ r.action))
    else (s, errorAnswer 403 "You must connect via HTTPS to use this UI".toList)
  else if r.byToken then ((site.pubStatus s r).1, answer (site.pubStatus s r).2)
  else (s, site.openPage r)

end Site

/-! ## Runs -/

/-- What happens at a site: a request, or the work of a job. -/
inductive Event (H : Type)
  | request (r : Request)
  | job (work : State H → State H)

/-- A lab with its addresses, beside the lab. -/
def IsCopy (name : Text) : Prop := ".system_modified.json".toList <:+ name

instance : DecidablePred IsCopy := fun _ => inferInstanceAs (Decidable (_ <:+ _))

/-- The two directories have the same labs, such copies aside. -/
def SameLabs (labs labs' : Obj Text LabFile) : Prop := ∀ name, ¬ IsCopy name → labs'.get name = labs.get name

/-- A job changes no lab. -/
def Event.Keeps : Event H → Prop
  | .request _ => True
  | .job work => ∀ s, SameLabs s.labs (work s).labs

namespace Site

variable (site : Site R H)

/-- **What a site relies on**: the helper changes no lab, and nothing at all for a status by token. -/
structure Sound : Prop where
  keeps : ∀ s args stdin, SameLabs s.labs (site.process s args stdin).1.labs
  reads : ∀ s args stdin, args.head? = some "pub-status".toList → (site.process s args stdin).1 = s

/-- An event, with the answer if it is a request. -/
def step (s : State H) : Event H → State H × Option (Answer R)
  | .request r => ((site.dispatch s r).1, some (site.dispatch s r).2)
  | .job work => (work s, none)

/-- The state after the events. -/
def after (s : State H) (es : List (Event H)) : State H := (Simulation.answering site.step s es).1

end Site

end LabInABox.Web.Saved
