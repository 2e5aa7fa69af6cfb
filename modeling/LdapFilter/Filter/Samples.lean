/-!
# Sample filters

Filters to try: the examples of RFC 4515 section 4, and filters from the configuration of
directory servers.
-/

namespace LdapFilter.Samples

/-- The examples of RFC 4515 section 4. -/
def rfc : List String :=
  ["(cn=Babs Jensen)",
    "(!(cn=Tim Howes))",
    "(&(objectClass=Person)(|(sn=Jensen)(cn=Babs J*)))",
    "(o=univ*of*mich*)",
    "(seeAlso=)",
    "(cn:caseExactMatch:=Fred Flintstone)",
    "(cn:=Betty Rubble)",
    "(sn:dn:2.4.6.8.10:=Barney Rubble)",
    "(o:dn:=Ace Industry)",
    "(:1.2.3:=Wilma Flintstone)",
    "(:DN:2.4.6.8.10:=Dino)",
    "(o=Parens R Us \\28for all your parenthetical needs\\29)",
    "(cn=*\\2A*)",
    "(filename=C:\\5cMyFile)",
    "(bin=\\00\\00\\00\\04)",
    "(sn=Lu\\c4\\8di\\c4\\87)",
    "(1.3.6.1.4.1.1466.0=\\04\\02\\48\\69)"]

/-- Filters from the configuration of directory servers. -/
def field : List String :=
  ["(&(objectClass=inetOrgPerson)(memberOf=cn=owncloudusers,ou=groups,dc=example,dc=com)" ++
      ")",
    "(&(objectClass=inetOrgPerson)(memberOf=cn=owncloudusers,ou=groups,dc=example,dc=com)" ++
      "(|(uid=%uid)(mail=%uid)))",
    "(&(objectClass=*))",
    "(|(&(|(objectclass=person))(|(|(memberof=CN=Portal SecureB,OU=ITA Mail Groups,OU=Fra" ++
      "nce,OU=Central,OU=BMF Europe,DC=aiu,DC=sometech,DC=com)(primaryGroupID=840317))))(sa" ++
      "maccountname=k2509)(samaccountname=k12305))",
    "(|(&(|(objectclass=person))(|(|(memberof=CN=Portal SecureB,OU=ITA Mail Groups,OU=Fra" ++
      "nce,OU=Central,OU=BMF Europe,DC=aiu,DC=sometech,DC=com)(primaryGroupID=840317))(&(ob" ++
      "jectclass=person)(|(samaccountname=k2509)(samaccountname=k12305)))))(samaccountname=" ++
      "%uid))",
    "(&(objectclass=*)(uniService=CLOUD))",
    "(&(uniService=CLOUD)(uid=%uid))",
    "(&(objectCategory=person)(objectClass=user)(memberOf:1.2.840.113556.1.4.1941:=CN=MyI" ++
      "nternet4all-Global_Users,OU=Groups,OU=OEM,OU=MY,DC=emea,DC=my-world,DC=com))"]

/-- Every sample. -/
def all : List String :=
  rfc ++ field

end LdapFilter.Samples
