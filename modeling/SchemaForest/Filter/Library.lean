import SchemaForest.Filter.Grammar
import SchemaForest.Filter.Search
import SchemaForest.Filter.Time

/-!
# Filters that are given

The filters that every filter may call by name: the primitives, and definitions in the language of
filters itself.
-/

namespace SchemaForest.Filter

/-- Primitives that search by regular expressions: the matches, the texts between them, or both. -/
def Primitive.searching : List Primitive :=
  let search (name : String) (between whole : Bool) : Primitive :=
    ⟨name, 2, false, fun v args _ =>
      match args with
      | [expression, letters] => .ofResult (Search.run between whole v expression letters)
      | _ => .none⟩
  [search "matches" false true, search "split_" true false, search "split_matches" true true]

/-- All primitive filters. -/
def primitives : List Primitive :=
  Primitive.general ++ Primitive.textual ++ Primitive.numeric ++ Primitive.temporal ++
    Primitive.searching

/-- The filters that are written in the language. -/
def libraryText : String := "
  def empty: \x7b\x7d[] as $x | .;
  def error: error_empty, .;
  def error(f): (f | error_empty), .;
  def select(f): if f then . else empty end;
  def not: if . then false else true end;

  def isboolean: type == \"boolean\";
  def isnumber: type == \"number\";
  def isstring: type == \"string\";
  def isarray: type == \"array\";
  def isobject: type == \"object\";
  def values: select(. != null);
  def nulls: select(. == null);
  def booleans: select(isboolean);
  def numbers: select(isnumber);
  def strings: select(isstring);
  def arrays: select(isarray);
  def objects: select(isobject);
  def iterables: select(. >= []);
  def scalars: select(. < []);

  def recurse(f): def rec: ., (f | rec); rec;
  def recurse: recurse(.[]?);
  def recurse(f; c): recurse(f | select(c));
  def repeat(f): def rec: ., (f | rec); rec;
  def while(c; f): def rec: if c then ., (f | rec) else empty end; rec;
  def until(c; f): def rec: if c then . else f | rec end; rec;
  def range($from; $to): range($from; $to; 1);
  def range($to): range(0; $to);

  def map(f): [.[] | f];
  def map_values(f): .[] |= f;
  def walk(f): def rec: (.[]? |= rec) | f; rec;
  def del(f): f |= empty;
  def first: .[0];
  def last: .[-1];
  def nth($n): .[$n];
  def nth($n; f): last(limit($n + 1; f));
  def isempty(f): first((f | false), true);
  def add(f): reduce f as $x (null; . + $x);
  def add: add(.[]);
  def any(g; f): isempty(first(g | f or empty)) | not;
  def all(g; f): isempty(first(g | f and empty));
  def any(f): any(.[]; f);
  def all(f): all(.[]; f);
  def any: any(.);
  def all: all(.);

  def keys: keys_unsorted | sort;
  def to_entries: [keys_unsorted[] as $k | \x7bkey: $k, value: .[$k]\x7d];
  def from_entries: map(\x7b(.key): .value\x7d) | add + \x7b\x7d;
  def with_entries(f): to_entries | map(f) | from_entries;
  def getpath($p): if $p == [] then . else .[$p[0]] | getpath($p[1:]) end;
  def paths: path_values | .[0];
  def paths(f): path_values | if .[1] | f then .[0] else empty end;
  def in(xs): . as $x | xs | has($x);
  def inside(xs): . as $x | xs | contains($x);
  def index($x): indices($x)[0];
  def rindex($x): indices($x)[-1];

  def sort: sort_by(.);
  def unique_by(f): [group_by(f)[] | .[0]];
  def unique: unique_by(.);
  def min_by(f): reduce min_by_or_empty(f) as $x (null; $x);
  def max_by(f): reduce max_by_or_empty(f) as $x (null; $x);
  def min: min_by(.);
  def max: max_by(.);
  def flatten: [recurse(arrays[]) | select(isarray | not)];
  def flatten($d):
    if $d > 0 then map(if isarray then flatten($d - 1) else [.] end) | add else . end;
  def transpose: [range([.[] | length] | max) as $i | [.[][$i]]];
  def join($s): if . == [] then \"\" else
    reduce .[1:][] as $x (.[0] | tostring; . + $s + ($x | tostring)) end;

  def tonumber: if isnumber then . else fromjson end;
  def abs: if . < 0 then -. end;
  def isnan: . < .;
  def isinfinite: . == infinite or . == -infinite;
  def isfinite: isnumber and (isinfinite | not);
  def isnormal: isnumber and ((. == 0 or isnan or isinfinite) | not);
  def finites: select(isfinite);
  def normals: select(isnormal);

  def ascii: [.] | implode;
  def fmt_row(n; s):
    if isstring then s elif . == null then n
    elif isarray or isobject then error(\"cannot use \\(.) in a row\") else . end;
  def @text: tostring;
  def @json: tojson;
  def @csv: .[] |= fmt_row(\"\"; \"\\\"\\(escape_csv)\\\"\") | join(\",\");
  def @tsv: .[] |= fmt_row(\"\"; escape_tsv) | join(\"\\t\");
  def @html: tostring | escape_html;
  def @sh: [if isarray then .[] else . end | fmt_row(\"null\"; \"'\\(escape_sh)'\")] | join(\" \");
  def @uri: tostring | encode_uri;
  def @base64: tostring | encode_base64;
  def @base64d: tostring | decode_base64;

  def capture_object: map(select(.name) | \x7b(.name): .string\x7d) | add + \x7b\x7d;
  def test(re; flags): matches(re; flags) | length > 0;
  def test(re): test(re; \"\");
  def match(re; flags): matches(re; flags)[] | .[0] + \x7bcaptures: .[1:]\x7d;
  def match(re): match(re; \"\");
  def capture(re; flags): matches(re; flags)[] | capture_object;
  def capture(re): capture(re; \"\");
  def scan(re; flags): matches(re; flags + \"g\")[] | .[0].string;
  def scan(re): scan(re; \"\");
  def split(re; flags): split_(re; flags + \"g\");
  def splits(re; flags): split(re; flags)[];
  def splits(re): splits(re; \"\");
  def sub(re; f; flags): reduce split_matches(re; flags)[] as $x
    (\"\"; . + if $x | isstring then $x else $x | capture_object | f end);
  def sub(re; f): sub(re; f; \"\");
  def gsub(re; f; flags): sub(re; f; flags + \"g\");
  def gsub(re; f): gsub(re; f; \"\");

  def todate: todateiso8601;
  def fromdate: fromdateiso8601;
  def date: todate;
  def dateadd(unit; n): . + n;
  def datesub(unit; n): . - n;

  def debug: .;
  def debug(f): (f | empty), .;
  def stderr: .;
  def inputs: empty;
  def input: first(inputs);
"

/-- The filters that are written in the language. -/
def library : List Definition := (Definition.listOfText? libraryText).getD []

/-- What every filter knows. -/
def known : Known :=
  ⟨primitives.map (fun p => (p.name, p.arity)) ++
    library.map (fun d => (d.name, d.parameters.length)), [], []⟩

end SchemaForest.Filter
